import UnBoxer.Effects
import UnBoxer.Scaffolds
import UnBoxer.TryExtract

namespace UnBoxer.Extraction

open UnBoxer.Trees UnBoxer.Programs UnBoxer.DirAll UnBoxer.Effects UnBoxer.Scaffolds
open UnBoxer.PathText UnBoxer.Archives UnBoxer.EscapeJson UnBoxer.TryExtract

section Entry

variable {c : Crates} {out : Text} {r : Record} {d : Disk Text UInt8}

def placeOf (out : Text) (r : Record) : List Text := resolve [] (target out r.name)

/-- Where something may be made for an entry: at its own path and at the ones on
the way to it. -/
def Makes (c : Crates) (out : Text) (r : Record) (ps : List (Piece Text)) : Prop :=
  if c.isDir r.name then (pieces r.name).any hasNul = false ∧ Attempt (target out r.name) ps
  else ((parent (pieces r.name)).any hasNul = false ∧ Attempt (parent (target out r.name)) ps) ∨
    ((pieces r.name).any hasNul = false ∧ ps = target out r.name)

structure Settled (out : Text) (r : Record) (t : Tree Text Bytes) : Prop where
  plain : (pieces r.name).any hasNul = false
  path : ∃ qs n, target out r.name = qs ++ [.down n] ∧ t.Open [] qs
  content : t.node (placeOf out r) = some (.file r.data)

structure Done (c : Crates) (out : Text) (r : Record) (d d' : Disk Text UInt8) : Prop where
  kept : ∀ q b, c.isDir r.name ∨ q ≠ placeOf out r → d.tree.node q = some (.file b) →
    d'.tree.node q = some (.file b)
  settled : c.isDir r.name = false → Settled out r d'.tree

/-- The program touches only paths in `A` and leaves other files alone. -/
def Careful (A : List (Piece Text) → Prop) (d d' : Disk Text UInt8) : Prop :=
  Touched A d d' ∧ ∀ q b, d.tree.node q = some (.file b) → d'.tree.node q = some (.file b)

theorem Careful.of_same {A : List (Piece Text) → Prop} {d' : Disk Text UInt8}
    (ht : d'.tree = d.tree) (hto : d'.touched = d.touched) : Careful A d d' :=
  ⟨.of_same hto, fun _ _ h => by rwa [ht]⟩

theorem refusing_dirAll {A : List (Piece Text) → Prop} {ns ps : List (Piece Text)}
    (hA : ns.any hasNul = false → ∀ qs, Attempt ps qs → A qs) :
    Triple (· = d) (refusing ns (createDirAll ps)) (fun _ => Careful A d) (fun _ => Careful A d) := by
  unfold refusing
  by_cases hn : ns.any hasNul = true
  · rw [if_pos hn]
    refine Triple.error fun d' hd => ?_
    rw [hd]
    exact .of_same rfl rfl
  · rw [if_neg hn]
    have hA' := hA (Bool.not_eq_true _ ▸ hn)
    refine (createDirAll_spec (A := A) hA').weaken (fun d' hd => ?_)
      (fun _ _ h => ⟨.of_grown h.1 fun _ h => h, fun _ _ => h.1.keep⟩)
      (fun _ _ h => ⟨.of_grown h fun _ h => h, fun _ _ => h.keep⟩)
    rw [hd]
    exact Grown.of_same rfl rfl

theorem createParent_spec : Triple (· = d) (createParent c out r.name)
    (fun _ => Careful (fun ps => (parent (pieces r.name)).any hasNul = false ∧
      Attempt (parent (target out r.name)) ps) d)
    (fun _ => Careful (fun ps => (parent (pieces r.name)).any hasNul = false ∧
      Attempt (parent (target out r.name)) ps) d) := by
  unfold createParent
  split
  · refine Triple.ok fun d' hd => ?_
    rw [hd]
    exact .of_same rfl rfl
  · exact Triple.mapErr (refusing_dirAll fun hn _ hqs => ⟨hn, hqs⟩)

theorem makes_target (hfile : c.isDir r.name = false) (hplain : (pieces r.name).any hasNul = false) :
    Makes c out r (target out r.name) := by
  unfold Makes
  rw [if_neg (by simp [hfile])]
  exact .inr ⟨hplain, rfl⟩

theorem touched_target (hfile : c.isDir r.name = false)
    (hplain : (pieces r.name).any hasNul = false) {d' : Disk Text UInt8} {b : Bytes}
    (hread : d'.tree.read (target out r.name) = .ok b)
    (hto : d'.touched = d.touched ++ [placeOf out r]) : Touched (Makes c out r) d d' := by
  have hmakes : Makes c out r (target out r.name) := makes_target hfile hplain
  obtain ⟨qs, n, hps, ho, _⟩ := Tree.read_ok.mp hread
  unfold placeOf at hto
  rw [hps] at hmakes hto
  exact .one hmakes ho hto

theorem settled_read (hplain : (pieces r.name).any hasNul = false) {t : Tree Text Bytes}
    (hread : t.read (target out r.name) = .ok r.data) : Settled out r t := by
  obtain ⟨qs, n, hps, ho, hnode⟩ := Tree.read_ok.mp hread
  exact ⟨hplain, ⟨qs, n, hps, ho⟩, hnode⟩

theorem copyEntry_spec (hfile : c.isDir r.name = false)
    (hplain : (pieces r.name).any hasNul = false) :
    Triple (fun d' => d' = d ∧ ∃ b, d'.tree.read (target out r.name) = .ok b)
      (copyEntry c (placeOf out r) r)
      (fun _ d' => Touched (Makes c out r) d d' ∧ Settled out r d'.tree ∧
        Same (· = placeOf out r) d d')
      (fun _ => Touched (Makes c out r) d) := by
  refine Triple.mapErr (Triple.bind (Q := fun _ d' => d'.tree.read (target out r.name) = .ok r.data ∧
    Same (· = placeOf out r) d d' ∧ d'.touched = d.touched ++ [placeOf out r]) ?_ fun _ => ?_)
  · refine (write_spec (target out r.name) r.data d).weaken (fun _ h => h) (fun _ _ h => h)
      (fun _ d' h => ?_)
    obtain ⟨⟨k, hk⟩, _, hto⟩ := h
    exact touched_target hfile hplain hk hto
  · refine Triple.each fun d₁ h₁ => ?_
    obtain ⟨hread, hsame, hto⟩ := h₁
    have htouched : ∀ d' : Disk Text UInt8, d'.tree = d₁.tree ∧ d'.touched = d₁.touched →
        Touched (Makes c out r) d d' := fun d' h =>
      touched_target hfile hplain (h.1 ▸ hread) (h.2.trans hto)
    refine (next_spec d₁).weaken (fun _ h => h) (fun _ d' h => ⟨htouched d' h, ?_, fun q hq => ?_⟩)
      (fun _ d' h => htouched d' h)
    · exact settled_read hplain (h.1 ▸ hread)
    · rw [h.1]
      exact hsame q hq

theorem extractFile_spec (hfile : c.isDir r.name = false) :
    Triple (· = d) (extractFile c out r)
      (fun _ d' => Touched (Makes c out r) d d' ∧ Done c out r d d')
      (fun _ => Touched (Makes c out r) d) := by
  have hmono : ∀ d', Careful (fun ps => (parent (pieces r.name)).any hasNul = false ∧
      Attempt (parent (target out r.name)) ps) d d' → Careful (Makes c out r) d d' := by
    rintro d' ⟨⟨new, hto, hnew⟩, hkept⟩
    refine ⟨⟨new, hto, fun q hq => ?_⟩, hkept⟩
    obtain ⟨qs, n, hA, h⟩ := hnew q hq
    refine ⟨qs, n, ?_, h⟩
    unfold Makes
    rw [if_neg (by simp [hfile])]
    exact .inl hA
  unfold extractFile
  refine touched_bind (createParent_spec.weaken (fun _ h => h) (fun _ d' h => hmono d' h)
    (fun _ d' h => (hmono d' h).1)) fun _ d₁ h₁ => ?_
  refine touched_bind (Q := fun h d₂ => h = placeOf out r ∧ (pieces r.name).any hasNul = false ∧
    (∃ b, d₂.tree.read (target out r.name) = .ok b) ∧ Same (· = placeOf out r) d₁ d₂)
    (Triple.mapErr ?_) fun h d₂ h₂ => ?_
  · unfold refusing
    by_cases hn : (pieces r.name).any hasNul = true
    · rw [if_pos hn]
      exact Triple.error fun d' hd => .of_same (by rw [hd])
    · rw [if_neg hn]
      have hplain := Bool.not_eq_true _ ▸ hn
      refine (create_spec (target out r.name) d₁).weaken (fun _ h => h) (fun h d' hd => ?_)
        (fun _ _ h => .of_same h.2)
      obtain ⟨hh, ⟨b, hread⟩, hsame, hto⟩ := hd
      exact ⟨touched_target hfile hplain hread hto, hh, hplain, ⟨b, hread⟩, hsame⟩
  · obtain ⟨rfl, hplain, hread, hsame⟩ := h₂
    refine (copyEntry_spec hfile hplain).weaken (fun d' hd => ?_) (fun _ d' h => ⟨h.1, ?_⟩)
      (fun _ _ h => h)
    · rw [hd]
      exact ⟨rfl, hread⟩
    · refine ⟨fun q b hq hnode => ?_, fun _ => h.2.1⟩
      have hne : q ≠ placeOf out r := hq.resolve_left (by simp [hfile])
      rw [h.2.2 q hne, hsame q hne]
      exact h₁ q b hnode

theorem extractEntry_spec (r : Record) (i : Nat) (d : Disk Text UInt8) :
    Triple (· = d) (extractEntry c out (r, i))
      (fun _ d' => Touched (Makes c out r) d d' ∧ Done c out r d d')
      (fun _ => Touched (Makes c out r) d) := by
  refine touched_bind (Q := fun _ d₁ => d₁.tree = d.tree) (Triple.mapErr ((next_spec d).weaken
    (fun _ h => h) (fun _ _ h => ⟨.of_same h.2, h.1⟩) (fun _ _ h => .of_same h.2)))
    fun _ d₁ h₁ => ?_
  have hdone : ∀ d', Done c out r d₁ d' → Done c out r d d' := fun d' h =>
    ⟨fun q b hq hnode => h.kept q b hq (h₁ ▸ hnode), h.settled⟩
  dsimp only
  by_cases hdir : c.isDir r.name = true
  · rw [if_pos hdir]
    have hmakes : ∀ d', Careful (fun ps => (pieces r.name).any hasNul = false ∧
        Attempt (target out r.name) ps) d₁ d' → Touched (Makes c out r) d₁ d' ∧ Done c out r d d' := by
      rintro d' ⟨⟨new, hto, hnew⟩, hkept⟩
      refine ⟨⟨new, hto, fun q hq => ?_⟩, hdone d' ⟨fun q b _ => hkept q b, fun hf => ?_⟩⟩
      · obtain ⟨qs, n, hA, h⟩ := hnew q hq
        refine ⟨qs, n, ?_, h⟩
        unfold Makes
        rwa [if_pos hdir]
      · rw [hdir] at hf
        cases hf
    exact Triple.ignore ((refusing_dirAll fun hn _ hqs => ⟨hn, hqs⟩).weaken (fun _ h => h)
      (fun _ d' h => hmakes d' h) (fun _ d' h => hmakes d' h))
  · rw [if_neg hdir]
    exact (extractFile_spec (Bool.not_eq_true _ ▸ hdir)).weaken (fun _ h => h)
      (fun _ d' h => ⟨h.1, hdone d' h.2⟩) (fun _ _ h => h)

end Entry

section Loop

variable (c : Crates) (out : Text)

def walks (rs : List Record) : List (List (Piece Text)) :=
  pieces out :: (rs.filter fun r => !c.isDir r.name).map fun r => (target out r.name).dropLast

/-- The files of `rs` can stand at their places while the walks `ws` are open. -/
def Compatible (ws : List (List (Piece Text))) (rs : List Record) : Prop :=
  ∀ r ∈ rs, c.isDir r.name = false → (pieces r.name).any hasNul = false ∧
    (∃ qs n, target out r.name = qs ++ [.down n]) ∧ ¬ Needed ws (placeOf out r)

/-- The entries `rs` have been extracted: at the place of a file is the content
of the last one that goes there. -/
structure Held (rs : List Record) (t : Tree Text Bytes) : Prop where
  walked : ∀ ps ∈ walks c out rs, t.Open [] ps
  files : ∀ r ∈ rs, c.isDir r.name = false → (pieces r.name).any hasNul = false ∧
    (∃ qs n, target out r.name = qs ++ [.down n]) ∧
    ∃ r' ∈ rs, c.isDir r'.name = false ∧ placeOf out r' = placeOf out r ∧
      t.node (placeOf out r) = some (.file r'.data)

variable {c out}

theorem walks_ne_nil (c : Crates) (out : Text) (rs : List Record) : walks c out rs ≠ [] :=
  List.cons_ne_nil _ _

theorem mem_walks {rs : List Record} {r : Record} (hr : r ∈ rs) (hfile : c.isDir r.name = false) :
    (target out r.name).dropLast ∈ walks c out rs :=
  List.mem_cons_of_mem _ (List.mem_map_of_mem (List.mem_filter.mpr ⟨hr, by simp [hfile]⟩))

theorem walks_concat (rs : List Record) (r : Record) : walks c out (rs ++ [r]) =
    walks c out rs ++ if c.isDir r.name then [] else [(target out r.name).dropLast] := by
  unfold walks
  cases h : c.isDir r.name <;> simp [h]

theorem held_start {t : Tree Text Bytes} (ho : t.Open [] (pieces out)) : Held c out [] t where
  walked ps hps := by rwa [List.mem_singleton.mp hps]
  files r hr := by cases hr

theorem Held.compatible {rs : List Record} {t t' : Tree Text Bytes}
    {ws : List (List (Piece Text))} (h : Held c out rs t) (ha : After t t')
    (hopen : ∀ ps ∈ ws, t'.Open [] ps) : Compatible c out ws rs := by
  intro r hr hfile
  obtain ⟨hplain, hpath, r', _, _, _, hnode⟩ := h.files r hr hfile
  refine ⟨hplain, hpath, fun hn => ?_⟩
  obtain ⟨b, hb⟩ := ha.file _ _ hnode
  rw [needed_dir hopen hn] at hb
  cases hb

theorem Held.step {rs : List Record} {r : Record} {d d' : Disk Text UInt8}
    (h : Held c out rs d.tree) (hd : Done c out r d d') (ha : After d.tree d'.tree) :
    Held c out (rs ++ [r]) d'.tree := by
  refine ⟨fun ps hps => ?_, fun r₀ hr₀ hfile => ?_⟩
  · rw [walks_concat] at hps
    obtain hps | hps := List.mem_append.mp hps
    · exact ha.open (h.walked ps hps)
    · cases hdir : c.isDir r.name with
      | true => simp [hdir] at hps
      | false =>
        obtain ⟨qs, n, hpath, ho⟩ := (hd.settled hdir).path
        have he : ps = (target out r.name).dropLast := by simpa [hdir] using hps
        rwa [he, hpath, List.dropLast_concat]
  · obtain hr₀ | hr₀ := List.mem_append.mp hr₀
    · obtain ⟨hplain, hpath, r', hr', hfile', hplace, hnode⟩ := h.files r₀ hr₀ hfile
      refine ⟨hplain, hpath, ?_⟩
      by_cases hkeep : c.isDir r.name = true ∨ placeOf out r₀ ≠ placeOf out r
      · exact ⟨r', List.mem_append_left _ hr', hfile', hplace, hd.kept _ _ hkeep hnode⟩
      · simp only [not_or, Bool.not_eq_true, not_not] at hkeep
        refine ⟨r, by simp, hkeep.1, hkeep.2.symm, ?_⟩
        rw [hkeep.2]
        exact (hd.settled hkeep.1).content
    · obtain rfl := List.mem_singleton.mp hr₀
      have hs := hd.settled hfile
      obtain ⟨qs, n, hpath, _⟩ := hs.path
      exact ⟨hs.plain, ⟨qs, n, hpath⟩, r₀, by simp, hfile, rfl, hs.content⟩

theorem extractAll_rule {rs : List Record} {I : List Record → Disk Text UInt8 → Prop}
    {E : Text → Disk Text UInt8 → Prop}
    (h : ∀ before r after i, rs = before ++ r :: after →
      Triple (I before) (extractEntry c out (r, i)) (fun _ => I (before ++ [r])) E) :
    Triple (I []) (Prog.forEach (extractEntry c out) rs.zipIdx) (fun _ => I rs) E := by
  have hfst : rs.zipIdx.map Prod.fst = rs := List.zipIdx_map_fst 0 rs
  have hbody : ∀ ys x zs, rs.zipIdx = ys ++ x :: zs →
      Triple (I (ys.map Prod.fst)) (extractEntry c out x)
        (fun _ => I ((ys ++ [x]).map Prod.fst)) E := by
    intro ys x zs hx
    rw [hx, List.map_append, List.map_cons] at hfst
    rw [List.map_append, List.map_singleton]
    exact h _ _ _ x.2 hfst.symm
  have hall := Triple.forEach rs.zipIdx (fun ys => I (ys.map Prod.fst)) hbody
  rwa [hfst] at hall

theorem openArchive_spec (zip : Text) (d : Disk Text UInt8) :
    Triple (· = d) (openArchive c zip)
      (fun rs d' => d'.tree = d.tree ∧ d'.touched = d.touched ∧
        ∃ data, d.tree.read (pieces zip) = .ok data ∧ c.parse data = .ok rs)
      (fun _ d' => d'.tree = d.tree ∧ d'.touched = d.touched) := by
  refine (Triple.mapErr (load_spec (pieces zip) d)).bind fun data => Triple.each fun d₁ h₁ => ?_
  obtain ⟨ht, hto, hread⟩ := h₁
  have hnext : Triple (· = d₁) next (fun _ d' => d'.tree = d₁.tree ∧ d'.touched = d₁.touched)
      (fun (_ : Errno) d' => d'.tree = d.tree ∧ d'.touched = d.touched) :=
    (next_spec d₁).weaken (fun _ h => h) (fun _ _ h => h)
      (fun _ _ h => ⟨h.1.trans ht, h.2.trans hto⟩)
  refine (Triple.mapErr hnext).bind fun _ => ?_
  cases hp : c.parse data with
  | ok rs => exact Triple.ok fun _ h => ⟨h.1.trans ht, h.2.trans hto, data, hread, hp⟩
  | error e => exact Triple.error fun _ h => ⟨h.1.trans ht, h.2.trans hto⟩

def Opens (c : Crates) (zip out : Text) (d : Disk Text UInt8) (rs : List Record) : Prop :=
  ∀ data rs', ((createDirAll (pieces out)).run d).2.tree.read (pieces zip) = .ok data →
    c.parse data = .ok rs' → rs' = rs

/-- The rule for a whole extraction: an invariant of the entries extracted so far
that holds once the output directory is there. -/
theorem tryExtract_rule {zip : Text} {d : Disk Text UInt8} {rs : List Record}
    (hopens : Opens c zip out d rs) {I : List Record → Disk Text UInt8 → Prop}
    {E : Disk Text UInt8 → Prop}
    (hgrown : ∀ d', Grown (Attempt (pieces out)) d d' → E d')
    (hstart : ∀ d', Grown (Attempt (pieces out)) d d' → d'.tree.Open [] (pieces out) → I [] d')
    (hloop : ∀ before r after i, rs = before ++ r :: after →
      Triple (I before) (extractEntry c out (r, i)) (fun _ => I (before ++ [r])) (fun _ => E)) :
    Triple (· = d) (tryExtract c zip out) (fun json d' => json = extractResponse ∧ I rs d')
      (fun _ => E) := by
  rintro d rfl
  have hspec := createDirAll_spec (A := Attempt (pieces out)) (d := d) (fun _ h => h) d
    (.of_same rfl rfl)
  unfold Opens at hopens
  unfold tryExtract
  rw [run_bind, run_mapErr]
  cases hr : (createDirAll (pieces out)).run d with
  | mk r d₁ =>
    rw [hr] at hspec hopens
    cases r with
    | error e => exact hgrown d₁ hspec
    | ok u =>
      obtain ⟨hg, ho⟩ := hspec
      have hsame : ∀ d' : Disk Text UInt8, d'.tree = d₁.tree → d'.touched = d₁.touched →
          Grown (Attempt (pieces out)) d d' := fun d' ht hto => hg.trans (.of_same ht hto)
      refine Triple.bind ((openArchive_spec zip d₁).weaken (fun _ h => h) (fun _ _ h => h)
        (fun _ d' h => hgrown d' (hsame d' h.1 h.2))) (fun rs' => ?_) d₁ rfl
      rintro d₂ ⟨ht, hto, data, hread, hparse⟩
      obtain rfl := hopens data rs' hread hparse
      exact (extractAll_rule hloop).bind (fun _ => Triple.ok fun _ h => ⟨rfl, h⟩) d₂
        (hstart d₂ (hsame d₂ ht hto) (ht ▸ ho))

end Loop

end UnBoxer.Extraction
