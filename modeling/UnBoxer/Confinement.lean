import UnBoxer.Instances
import UnBoxer.Staging

namespace UnBoxer.Confinement

open UnBoxer.Trees UnBoxer.Programs UnBoxer.DirAll UnBoxer.Effects UnBoxer.Scaffolds
open UnBoxer.PathText UnBoxer.Archives UnBoxer.EscapeJson UnBoxer.TryExtract UnBoxer.Endings
open UnBoxer.Extraction UnBoxer.QuietRuns UnBoxer.Staging UnBoxer.Instances

section Paths

variable {out : Text} {ps qs us : List (Piece Text)} {n m : Text}

/-- In the output directory, or one of the directories on the way to it. -/
def Inside (out : Text) (q : List Text) : Prop :=
  resolve [] (pieces out) <+: q ∨ Needed [pieces out] q

theorem Inside.of_prefix {p q : List Text} (h : Inside out q) (hp : p <+: q) : Inside out p := by
  obtain h | h := h
  · obtain hpre | hpre := List.prefix_or_prefix_of_prefix h hp
    · exact .inl hpre
    · exact .inr ⟨_, List.mem_singleton_self _, _, List.prefix_refl _, hpre⟩
  · exact .inr (h.of_prefix hp)

theorem inside_root : Inside out [] :=
  .inr ⟨_, List.mem_singleton_self _, [], List.nil_prefix, List.nil_prefix⟩

theorem components_mono (h : us <+: ps) : components us <+: components ps := h.filter _

theorem exists_prefix (h : us <+: components ps) :
    ∃ vs, vs <+: ps ∧ ∀ p, resolve p vs = resolve p us := by
  obtain ⟨rest, hrest⟩ := h
  obtain ⟨vs, ws, rfl, hvs, _⟩ := List.filter_eq_append_iff.mp hrest.symm
  refine ⟨vs, List.prefix_append vs ws, fun p => ?_⟩
  rw [← hvs]
  exact (resolve_components p vs).symm

theorem needed_components {ws ws' : List (List (Piece Text))} {q : List Text}
    (h : Needed ws' q) (hsub : ∀ ps ∈ ws', ∃ ps' ∈ ws, ps <+: ps' ∨ ps <+: components ps') :
    Needed ws q := by
  obtain ⟨ps, hps, us, hus, hq⟩ := h
  obtain ⟨ps', hps', hpre | hpre⟩ := hsub ps hps
  · exact ⟨ps', hps', us, hus.trans hpre, hq⟩
  · obtain ⟨vs, hvs, hres⟩ := exists_prefix (hus.trans hpre)
    exact ⟨ps', hps', vs, hvs, (hres []).symm ▸ hq⟩

theorem inside_attempt (h : Attempt (pieces out) qs) : Inside out (resolve [] qs) := by
  obtain rfl | h := h
  · exact .inl (List.prefix_refl _)
  · obtain ⟨vs, hvs, hres⟩ := exists_prefix (h.trans (List.dropLast_prefix _))
    exact .inr ⟨_, List.mem_singleton_self _, vs, hvs, by rw [hres]⟩

theorem exists_down (h : ¬ Inside out (resolve [] qs)) :
    ∃ us m, us ++ [.down m] <+: qs ∧ ¬ Inside out (resolve [] (us ++ [.down m])) := by
  induction qs using List.reverseRecOn with
  | nil => exact absurd inside_root h
  | append_singleton qs p ih =>
    cases p with
    | down m => exact ⟨qs, m, List.prefix_refl _, h⟩
    | here =>
      obtain ⟨us, m, hus, hout⟩ := ih (by simpa [move] using h)
      exact ⟨us, m, hus.trans (List.prefix_append _ _), hout⟩
    | up =>
      have hup : ¬ Inside out (resolve [] qs) := by
        intro hin
        refine h (hin.of_prefix ?_)
        simp only [resolve_append, resolve_cons, resolve_nil, move]
        exact List.dropLast_prefix _
      obtain ⟨us, m, hus, hout⟩ := ih hup
      exact ⟨us, m, hus.trans (List.prefix_append _ _), hout⟩

theorem components_concat : components (us ++ [.down m]) = components us ++ [.down m] := by
  rw [components_append]
  rfl

theorem attempt_inner (h : Attempt ps (qs ++ [.down n])) (hus : us ++ [.down m] <+: qs) :
    Attempt ps (components us ++ [.down m]) := by
  have hpre := components_mono hus
  rw [components_concat] at hpre
  obtain rfl | h := h
  · right
    rwa [parent_concat]
  · right
    have hin := components_mono ((List.prefix_append qs [.down n]).trans h)
    rw [components_parent] at hin
    exact hpre.trans hin

end Paths

section Escapes

variable {c : Crates} {out : Text} {r : Record} {qs us : List (Piece Text)} {n m : Text}

theorem makes_inner (h : Makes c out r (qs ++ [.down n])) (hus : us ++ [.down m] <+: qs) :
    Makes c out r (components us ++ [.down m]) := by
  unfold Makes at h ⊢
  split at h
  · rename_i hdir
    rw [if_pos hdir]
    exact ⟨h.1, attempt_inner h.2 hus⟩
  · rename_i hdir
    rw [if_neg hdir]
    left
    obtain ⟨hplain, h⟩ | ⟨hplain, h⟩ := h
    · exact ⟨hplain, attempt_inner h hus⟩
    · refine ⟨plain_parent hplain, ?_⟩
      have hpre := components_mono hus
      rw [components_concat] at hpre
      rw [← h, parent_concat]
      refine attempt_within ?_ hpre
      rw [← parent_concat qs n, components_parent]

/-- The entry `r` may come to make something at the path when the entries
`before` have been extracted. -/
structure Reaches (c : Crates) (out : Text) (before : List Record) (r : Record)
    (qs : List (Piece Text)) (n : Text) : Prop where
  makes : Makes c out r (qs ++ [.down n])
  compatible : Compatible c out (walks c out before ++ [qs]) before

def Confined (c : Crates) (out : Text) (rs : List Record) : Prop :=
  ∀ before r after, rs = before ++ r :: after → ∀ qs n, Reaches c out before r qs n →
    Inside out (resolve [] (qs ++ [.down n]))

variable {before front back : List Record} {r₀ : Record}

theorem compatible_mono {ws ws' : List (List (Piece Text))} {rs rs' : List Record}
    (h : Compatible c out ws rs) (hws : ∀ q, Needed ws' q → Needed ws q) (hrs : rs' ⊆ rs) :
    Compatible c out ws' rs' := by
  intro r hr hfile
  obtain ⟨hplain, hpath, hneeded⟩ := h r (hrs hr) hfile
  exact ⟨hplain, hpath, fun hn => hneeded (hws _ hn)⟩

theorem walks_append (front back : List Record) {ps : List (Piece Text)}
    (h : ps ∈ walks c out front) : ps ∈ walks c out (front ++ back) := by
  obtain rfl | h := List.mem_cons.mp h
  · exact List.mem_cons_self
  · obtain ⟨r, hr, rfl⟩ := List.mem_map.mp h
    obtain ⟨hr, hfile⟩ := List.mem_filter.mp hr
    exact mem_walks (List.mem_append_left back hr) (by simpa using hfile)

theorem Reaches.inner (h : Reaches c out before r qs n) (hus : us ++ [.down m] <+: qs) :
    Reaches c out before r (components us) m where
  makes := makes_inner h.makes hus
  compatible := by
    refine compatible_mono h.compatible (fun q hq => needed_components hq fun ps hps => ?_)
      (List.Subset.refl _)
    obtain hps | hps := List.mem_append.mp hps
    · exact ⟨ps, List.mem_append_left _ hps, .inl (List.prefix_refl _)⟩
    · rw [List.mem_singleton.mp hps]
      refine ⟨qs, by simp, .inr (components_mono ?_)⟩
      exact (List.prefix_append us _).trans hus

theorem Reaches.earlier (h : Reaches c out (front ++ r₀ :: back) r qs n)
    (hfile : c.isDir r₀.name = false) :
    ∃ us m, target out r₀.name = us ++ [.down m] ∧ Reaches c out front r₀ us m := by
  obtain ⟨hplain, ⟨us, m, hpath⟩, _⟩ := h.compatible r₀ (by simp) hfile
  have hmakes : Makes c out r₀ (target out r₀.name) := makes_target hfile hplain
  rw [hpath] at hmakes
  refine ⟨us, m, hpath, hmakes, ?_⟩
  refine compatible_mono h.compatible (fun q hq => needed_components hq fun ps hps => ?_)
    (List.subset_append_left _ _)
  obtain hps | hps := List.mem_append.mp hps
  · exact ⟨ps, List.mem_append_left _ (walks_append _ _ hps), .inl (List.prefix_refl _)⟩
  · rw [List.mem_singleton.mp hps]
    have hmem : (target out r₀.name).dropLast ∈ walks c out (front ++ r₀ :: back) :=
      mem_walks (by simp) hfile
    rw [hpath, List.dropLast_concat] at hmem
    exact ⟨us, List.mem_append_left _ hmem, .inl (List.prefix_refl _)⟩

theorem canTouch_makes {t : Tree Text Bytes} (h : Makes c out r (qs ++ [.down n]))
    (ho : t.Open [] qs) (hn : t.node (resolve [] qs ++ [n]) = none) (i : Nat) :
    CanTouch (extractEntry c out (r, i)) t (resolve [] qs ++ [n]) := by
  unfold Makes at h
  split at h
  · rename_i hdir
    apply CanTouch.after (passes_next t).mapErr
    dsimp only
    rw [if_pos hdir, refusing_plain h.1]
    exact (canTouch_dirAll h.2 ho hn).handle _
  · rename_i hdir
    obtain ⟨hplain, ha⟩ | ⟨hplain, hpath⟩ := h
    · apply CanTouch.after (passes_next t).mapErr
      dsimp only
      rw [if_neg hdir]
      apply CanTouch.bind
      have hne : components (target out r.name) ≠ [] := by
        intro hnil
        rw [Attempt, parent, hnil] at ha
        obtain ha | ha := ha
        · simp at ha
        · simp [parent, components] at ha
      rw [createParent, if_neg hne, refusing_plain hplain]
      exact (canTouch_dirAll ha ho hn).handle _
    · have hplace := placeOf_concat hpath.symm
      rw [← hplace] at hn ⊢
      exact canTouch_file (Bool.not_eq_true _ ▸ hdir) hplain hpath.symm ho (by simp [hn]) i

end Escapes

section Law

variable {c : Crates} {out : Text} {rs before after : List Record} {r : Record}
  {qs : List (Piece Text)} {n : Text} {data : Bytes}

/-- Some extraction of the archive touches something outside. -/
def Breaks (c : Crates) (out : Text) (rs : List Record) : Prop :=
  ∃ (zip : Text) (d : Disk Text UInt8), d.touched = [] ∧ Opens c zip out d rs ∧
    ∃ q ∈ ((tryExtract c zip out).run d).2.touched, ¬ Inside out q

theorem breaks_first (hparse : c.parse data = .ok rs) (hrs : rs = before ++ r :: after)
    (h : Reaches c out before r qs n) (hout : ¬ Inside out (resolve [] qs ++ [n]))
    (hneeded : ∀ q, Needed (walks c out before ++ [qs]) q → Inside out q)
    (hplaces : ∀ r₀ ∈ before, c.isDir r₀.name = false → Inside out (placeOf out r₀)) :
    Breaks c out rs := by
  obtain ⟨t, z, hground, hread, hfree⟩ := @exists_stage (walks c out before ++ [qs]) (by simp)
    (resolve [] qs ++ [n]) data
  have hnone := hfree fun hn => hout (hneeded _ hn)
  have hopen : t.Open [] (pieces out) :=
    hground.open ⟨_, List.mem_append_left _ List.mem_cons_self, List.prefix_refl _⟩
  obtain ⟨t', hpass, hground', hnew⟩ := passes_entries before 0 hground h.compatible
    fun r₀ hr₀ hfile => ⟨_, List.mem_append_left _ (mem_walks hr₀ hfile), List.prefix_refl _⟩
  have hnone' : t'.node (resolve [] qs ++ [n]) = none := by
    by_contra hn
    obtain hold | ⟨r₀, hr₀, hfile, hplace⟩ := hnew _ hn
    · exact hold hnone
    · exact hout (hplace ▸ hplaces r₀ hr₀ hfile)
  have hopen' : t'.Open [] qs := hground'.open ⟨qs, by simp, List.prefix_refl _⟩
  have htouch : CanTouch (Prog.forEach (extractEntry c out) rs.zipIdx) t (resolve [] qs ++ [n]) := by
    rw [hrs, List.zipIdx_append, Prog.forEach_append]
    refine CanTouch.after hpass ?_
    rw [List.zipIdx_cons]
    exact (canTouch_makes h.makes hopen' hnone' _).bind _
  obtain ⟨res, t'', l, hends, hmem⟩ := canTouch_tryExtract hopen hread hparse htouch
  obtain ⟨faults, hrun⟩ := hends.run
  refine ⟨z, ⟨t, faults ++ [], []⟩, rfl, opens_of_read hread hparse, _, ?_, hout⟩
  rw [hrun]
  exact hmem

theorem resolve_inner (us : List (Piece Text)) (m : Text) :
    resolve [] (components us ++ [.down m]) = resolve [] (us ++ [.down m]) := by
  rw [resolve_append, resolve_components, ← resolve_append]

/-- Every way out is taken by some extraction: of the entries that reach outside,
by the first one, as soon as its path leaves the output directory. -/
theorem breaks_of_reaches (hparse : c.parse data = .ok rs) (before : List Record) (r : Record)
    (after : List Record) (hrs : rs = before ++ r :: after) (qs : List (Piece Text)) (n : Text)
    (h : Reaches c out before r qs n) (hout : ¬ Inside out (resolve [] (qs ++ [.down n]))) :
    Breaks c out rs := by
  by_cases hneeded : ∀ q, Needed (walks c out before ++ [qs]) q → Inside out q
  · by_cases hplaces : ∀ r₀ ∈ before, c.isDir r₀.name = false → Inside out (placeOf out r₀)
    · exact breaks_first hparse hrs h (by simpa [move] using hout) hneeded hplaces
    · simp only [not_forall] at hplaces
      obtain ⟨r₀, hr₀, hfile, hplace⟩ := hplaces
      obtain ⟨front, back, hsplit⟩ := List.append_of_mem hr₀
      have hshort : front.length < before.length := by simp [hsplit]
      obtain ⟨us, m, hpath, hreach⟩ := (hsplit ▸ h).earlier hfile
      rw [placeOf, hpath] at hplace
      exact breaks_of_reaches hparse front r₀ (back ++ r :: after) (by simp [hrs, hsplit]) us m
        hreach hplace
  · simp only [not_forall] at hneeded
    obtain ⟨q, ⟨ps, hps, vs, hvs, hq⟩, hout'⟩ := hneeded
    obtain ⟨us, m, hus, hdown⟩ := exists_down fun hin => hout' (hin.of_prefix hq)
    rw [← resolve_inner] at hdown
    obtain hps | hps := List.mem_append.mp hps
    · obtain rfl | hps := List.mem_cons.mp hps
      · exact absurd (.inr ⟨_, List.mem_singleton_self _, vs, hvs, hq⟩) hout'
      · obtain ⟨r₀, hr₀, rfl⟩ := List.mem_map.mp hps
        obtain ⟨hr₀, hfile⟩ := List.mem_filter.mp hr₀
        obtain ⟨front, back, hsplit⟩ := List.append_of_mem hr₀
        have hshort : front.length < before.length := by simp [hsplit]
        obtain ⟨us', m', hpath, hreach⟩ := (hsplit ▸ h).earlier (by simpa using hfile)
        rw [hpath, List.dropLast_concat] at hvs
        exact breaks_of_reaches hparse front r₀ (back ++ r :: after) (by simp [hrs, hsplit]) _ m
          (hreach.inner (hus.trans hvs)) hdown
    · rw [List.mem_singleton.mp hps] at hvs
      have hshort : us.length < qs.length := by
        have hlen := (hus.trans hvs).length_le
        rw [List.length_append, List.length_singleton] at hlen
        omega
      have hle : (components us).length ≤ us.length := List.length_filter_le _ _
      exact breaks_of_reaches hparse before r after hrs _ m (h.inner (hus.trans hvs)) hdown
termination_by (before.length, qs.length)
decreasing_by
  · exact .left _ _ hshort
  · exact .left _ _ hshort
  · exact .right _ (hle.trans_lt hshort)

theorem confined_inside (h : Confined c out rs) {zip : Text} {d : Disk Text UInt8}
    (ht : d.touched = []) (hopens : Opens c zip out d rs) :
    ∀ q ∈ ((tryExtract c zip out).run d).2.touched, Inside out q := by
  let I (d' : Disk Text UInt8) : Prop := ∀ q ∈ d'.touched, Inside out q
  have hgrown : ∀ d', Grown (Attempt (pieces out)) d d' → I d' := by
    rintro d' ⟨new, hto, _, hnew⟩ q hq
    rw [hto, ht, List.nil_append] at hq
    obtain ⟨_, qs, n, hA, rfl, _⟩ := hnew q hq
    exact inside_attempt hA
  refine Triple.final (R := I) (P := (· = d)) ((tryExtract_rule hopens
    (I := fun before d' => Held c out before d'.tree ∧ I d') (E := I) hgrown
    (fun d' hg ho => ⟨held_start ho, hgrown d' hg⟩)
    fun before r after i hrs => Triple.each fun d₁ h₁ => ?_).weaken (fun _ hd => hd)
    (fun _ _ hd => hd.2.2) (fun _ _ hd => hd)) rfl
  have hstay : ∀ d', Touched (Makes c out r) d₁ d' → After d₁.tree d'.tree → I d' := by
    rintro d' ⟨new, hto, hnew⟩ ha q hq
    rw [hto] at hq
    obtain hq | hq := List.mem_append.mp hq
    · exact h₁.2 q hq
    · obtain ⟨qs, n, hmakes, rfl, ho⟩ := hnew q hq
      refine h before r after hrs qs n ⟨hmakes, h₁.1.compatible ha fun ps hps => ?_⟩
      obtain hps | hps := List.mem_append.mp hps
      · exact ha.open (h₁.1.walked ps hps)
      · rwa [List.mem_singleton.mp hps]
  refine (triple_after (extractEntry_spec r i d₁)).weaken (fun _ hd => hd) ?_ ?_
  · rintro _ d' ⟨⟨ht', hdone⟩, hafter⟩
    exact ⟨h₁.1.step hdone hafter, hstay d' ht' hafter⟩
  · rintro _ d' ⟨ht', hafter⟩
    exact hstay d' ht' hafter

/-- The archives of which every extraction, whether it succeeds or not, touches
nothing outside of the output directory. -/
theorem inside_iff_confined (hparse : ∃ data, c.parse data = .ok rs) :
    (∀ zip d, d.touched = [] → Opens c zip out d rs →
      ∀ q ∈ ((tryExtract c zip out).run d).2.touched, Inside out q) ↔ Confined c out rs := by
  constructor
  · intro h before r after hrs qs n hreach
    by_contra hout
    obtain ⟨data, hparse⟩ := hparse
    obtain ⟨zip, d, ht, hopens, q, hq, hq'⟩ :=
      breaks_of_reaches hparse before r after hrs qs n hreach hout
    exact hq' (h zip d ht hopens q hq)
  · exact fun h zip d ht hopens => confined_inside h ht hopens

end Law

section Example

def slip : List Record := [⟨['.', '.', '/', 'x'], [7]⟩]

def slipDisk : Disk Text UInt8 := fileDisk ['z'] (archive.put slip) []

theorem beside_outside : ¬ Inside ['o'] [['x']] := by
  rintro (h | ⟨ps, hps, us, hus, hq⟩)
  · revert h
    decide
  · rw [List.mem_singleton.mp hps, pieces_legal (by decide)] at hus
    cases us with
    | nil => exact absurd hq (by decide)
    | cons p us =>
      obtain ⟨rfl, htail⟩ := List.cons_prefix_cons.mp hus
      rw [List.prefix_nil.mp htail] at hq
      exact absurd hq (by decide)

/-- A name with `..` in it is followed out of the output directory. -/
theorem slip_escapes : slipDisk.touched = [] ∧ Opens crates ['z'] ['o'] slipDisk slip ∧
    ((tryExtract crates ['z'] ['o']).run slipDisk).1 = .ok extractResponse ∧
    ∃ q ∈ ((tryExtract crates ['z'] ['o']).run slipDisk).2.touched, ¬ Inside ['o'] q :=
  ⟨rfl, @opens_of_read _ _ _ _ (archive.put slip) _ (by decide +kernel) (by decide +kernel),
    by decide +kernel, [['x']], by decide +kernel, beside_outside⟩

instance (out : Text) (q : List Text) : Decidable (Inside out q) :=
  inferInstanceAs (Decidable (_ ∨ _))

theorem mem_of_makes {c : Crates} {out : Text} {r : Record} {ps : List (Piece Text)}
    (h : Makes c out r ps) : ps ∈ target out r.name :: (parent (target out r.name)).inits ++
      (parent (parent (target out r.name))).inits := by
  rw [Makes] at h
  simp only [List.cons_append, List.mem_cons, List.mem_append, List.mem_inits]
  split at h
  · obtain ⟨-, rfl | h⟩ := h
    · exact .inl rfl
    · exact .inr (.inl h)
  · obtain ⟨-, rfl | h⟩ | ⟨-, rfl⟩ := h
    · exact .inr (.inl (List.prefix_refl _))
    · exact .inr (.inr h)
    · exact .inl rfl

theorem roundabout_confined : Confined crates ['o'] roundabout := by
  intro before r after hrs qs n hreach
  have hall : ∀ r ∈ roundabout, ∀ ps ∈ target ['o'] r.name :: (parent (target ['o'] r.name)).inits ++
      (parent (parent (target ['o'] r.name))).inits, Inside ['o'] (resolve [] ps) := by
    decide +kernel
  refine hall r ?_ _ (mem_of_makes hreach.makes)
  rw [hrs]
  exact List.mem_append_right before List.mem_cons_self

theorem inside_iff_confined_roundabout : Confined crates ['o'] roundabout ∧
    ∀ zip d, d.touched = [] → Opens crates zip ['o'] d roundabout →
      ∀ q ∈ ((tryExtract crates zip ['o']).run d).2.touched, Inside ['o'] q :=
  ⟨roundabout_confined, (inside_iff_confined parse_roundabout).mpr roundabout_confined⟩

end Example

end UnBoxer.Confinement
