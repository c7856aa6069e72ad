import UnBoxer.Endings
import UnBoxer.Extraction
import UnBoxer.QuietRuns

namespace UnBoxer.Staging

open UnBoxer.Trees UnBoxer.Programs UnBoxer.DirAll UnBoxer.QuietRuns UnBoxer.Scaffolds
open UnBoxer.PathText UnBoxer.Archives UnBoxer.EscapeJson UnBoxer.TryExtract UnBoxer.Endings
open UnBoxer.Extraction

section Entries

variable {c : Crates} {out : Text} {r : Record} {t : Tree Text Bytes}

theorem passes_directory (hdir : c.isDir r.name = true) (i : Nat) (t : Tree Text Bytes) :
    Passes (extractEntry c out (r, i)) t () t := by
  apply (passes_next t).mapErr.bind
  dsimp only
  rw [if_pos hdir]
  unfold refusing
  split
  · exact Ends.ignore (.done _ t)
  · obtain ⟨r, l, hr⟩ := ends_dirAll_failed t (target out r.name)
    exact hr.ignore

theorem passes_createParent (hplain : (pieces r.name).any hasNul = false)
    {qs : List (Piece Text)} {n : Text} (hpath : target out r.name = qs ++ [.down n])
    (ho : t.Open [] qs) : Passes (createParent c out r.name) t () t := by
  unfold createParent
  split
  · exact .done () t
  · rw [refusing_plain (plain_parent hplain), hpath, parent_concat]
    exact (passes_dirAll_open ((open_components t [] qs).mpr ho)).mapErr

theorem placeOf_concat {qs : List (Piece Text)} {n : Text}
    (hpath : target out r.name = qs ++ [.down n]) : placeOf out r = resolve [] qs ++ [n] := by
  rw [placeOf, hpath]
  simp [move]

theorem passes_file (hfile : c.isDir r.name = false) (hplain : (pieces r.name).any hasNul = false)
    {qs : List (Piece Text)} {n : Text} (hpath : target out r.name = qs ++ [.down n])
    (ho : t.Open [] qs) (hn : t.node (placeOf out r) ≠ some .dir) (i : Nat) :
    ∃ t', Passes (extractEntry c out (r, i)) t () t' ∧
      t'.node = Function.update t.node (placeOf out r) (some (.file r.data)) := by
  rw [placeOf_concat hpath] at hn ⊢
  obtain ⟨t₁, t₂, hcreate, hwrite, ht₂⟩ := passes_create ho hn r.data
  refine ⟨t₂, ?_, ht₂⟩
  apply (passes_next t).mapErr.bind
  dsimp only
  rw [if_neg (by simp [hfile]), extractFile, refusing_plain hplain, hpath]
  apply (passes_createParent hplain hpath ho).bind
  apply hcreate.mapErr.bind
  exact Passes.mapErr (hwrite.bind (passes_next _))

theorem canTouch_file (hfile : c.isDir r.name = false)
    (hplain : (pieces r.name).any hasNul = false) {qs : List (Piece Text)} {n : Text}
    (hpath : target out r.name = qs ++ [.down n]) (ho : t.Open [] qs)
    (hn : t.node (placeOf out r) ≠ some .dir) (i : Nat) :
    CanTouch (extractEntry c out (r, i)) t (placeOf out r) := by
  rw [placeOf_concat hpath] at hn ⊢
  obtain ⟨t₁, hcreate, _⟩ := apply_create ho hn
  apply CanTouch.after (passes_next t).mapErr
  dsimp only
  rw [if_neg (by simp [hfile]), extractFile, refusing_plain hplain, hpath]
  apply CanTouch.after (passes_createParent hplain hpath ho)
  apply CanTouch.bind
  apply CanTouch.handle
  refine .call none (.inl ?_)
  rw [hcreate]
  exact List.mem_singleton_self _

end Entries

section Loop

variable {c : Crates} {out : Text}

/-- The directories of the tree are those that the walks `ws` need. -/
def Ground (ws : List (List (Piece Text))) (t : Tree Text Bytes) : Prop :=
  ∀ q, t.node q = some .dir ↔ Needed ws q

theorem Ground.open {ws : List (List (Piece Text))} {t : Tree Text Bytes} (h : Ground ws t)
    {ps : List (Piece Text)} (hps : ∃ ps' ∈ ws, ps <+: ps') : t.Open [] ps :=
  open_of_needed (fun q => (h q).mpr) hps

theorem Ground.put {ws : List (List (Piece Text))} {t t' : Tree Text Bytes} (h : Ground ws t)
    {p : List Text} (hp : ¬ Needed ws p) {data : Bytes}
    (ht : t'.node = Function.update t.node p (some (.file data))) : Ground ws t' := by
  intro q
  rw [ht]
  by_cases hq : q = p
  · rw [hq, Function.update_self]
    exact iff_of_false (by simp) hp
  · rw [Function.update_of_ne hq]
    exact h q

/-- The entries of `rs` can be passed: the files are made, and the directory
entries are not. -/
theorem passes_entries {ws : List (List (Piece Text))} (rs : List Record) (k : Nat)
    {t : Tree Text Bytes} (hground : Ground ws t) (hcomp : Compatible c out ws rs)
    (hwalks : ∀ r ∈ rs, c.isDir r.name = false → ∃ ps ∈ ws, (target out r.name).dropLast <+: ps) :
    ∃ t', Passes (Prog.forEach (extractEntry c out) (rs.zipIdx k)) t () t' ∧ Ground ws t' ∧
      ∀ q, t'.node q ≠ none → t.node q ≠ none ∨
        ∃ r ∈ rs, c.isDir r.name = false ∧ placeOf out r = q := by
  induction rs generalizing k t with
  | nil => exact ⟨t, .done () t, hground, fun q hq => .inl hq⟩
  | cons r rs ih =>
    have hcomp' : Compatible c out ws rs := fun r' hr' => hcomp r' (List.mem_cons_of_mem r hr')
    have hwalks' := fun r' hr' => hwalks r' (List.mem_cons_of_mem r hr')
    rw [List.zipIdx_cons]
    cases hdir : c.isDir r.name with
    | true =>
      obtain ⟨t', hpass, hground', hnew⟩ := ih (k + 1) hground hcomp' hwalks'
      refine ⟨t', (passes_directory hdir k t).bind hpass, hground', fun q hq => ?_⟩
      obtain hq | ⟨r', hr', h⟩ := hnew q hq
      · exact .inl hq
      · exact .inr ⟨r', List.mem_cons_of_mem r hr', h⟩
    | false =>
      obtain ⟨hplain, ⟨qs, n, hpath⟩, hneeded⟩ := hcomp r List.mem_cons_self hdir
      have hopen : t.Open [] qs := by
        have hw := hwalks r List.mem_cons_self hdir
        rw [hpath, List.dropLast_concat] at hw
        exact hground.open hw
      have hn : t.node (placeOf out r) ≠ some .dir := fun h => hneeded ((hground _).mp h)
      obtain ⟨t₁, hpass₁, ht₁⟩ := passes_file hdir hplain hpath hopen hn k
      obtain ⟨t', hpass, hground', hnew⟩ := ih (k + 1) (hground.put hneeded ht₁) hcomp' hwalks'
      refine ⟨t', hpass₁.bind hpass, hground', fun q hq => ?_⟩
      obtain hq | ⟨r', hr', h⟩ := hnew q hq
      · by_cases hqr : q = placeOf out r
        · exact .inr ⟨r, List.mem_cons_self, hdir, hqr.symm⟩
        · rw [ht₁, Function.update_of_ne hqr] at hq
          exact .inl hq
      · exact .inr ⟨r', List.mem_cons_of_mem r hr', h⟩

end Loop

section Stage

variable {c : Crates} {out zip : Text} {t t' : Tree Text Bytes} {rs : List Record} {data : Bytes}

theorem passes_openArchive (hread : t.read (pieces zip) = .ok data)
    (hparse : c.parse data = .ok rs) : Passes (openArchive c zip) t rs t := by
  apply (passes_load hread).mapErr.bind
  apply (passes_next t).mapErr.bind
  rw [hparse]
  exact .done rs t

theorem passes_tryExtract (hopen : t.Open [] (pieces out))
    (hread : t.read (pieces zip) = .ok data) (hparse : c.parse data = .ok rs)
    (h : Passes (Prog.forEach (extractEntry c out) rs.zipIdx) t () t') :
    Passes (tryExtract c zip out) t extractResponse t' := by
  apply (passes_dirAll_open hopen).mapErr.bind
  apply (passes_openArchive hread hparse).bind
  exact h.bind (.done _ t')

theorem canTouch_tryExtract (hopen : t.Open [] (pieces out))
    (hread : t.read (pieces zip) = .ok data) (hparse : c.parse data = .ok rs) {q : List Text}
    (h : CanTouch (Prog.forEach (extractEntry c out) rs.zipIdx) t q) :
    CanTouch (tryExtract c zip out) t q := by
  apply CanTouch.after (passes_dirAll_open hopen).mapErr
  apply CanTouch.after (passes_openArchive hread hparse)
  exact h.bind _

theorem opens_of_read {d : Disk Text UInt8} (hread : d.tree.read (pieces zip) = .ok data)
    (hparse : c.parse data = .ok rs) : Opens c zip out d rs := by
  intro data' rs' hread' hparse'
  have hspec := @createDirAll_spec _ _ _ (fun _ => True) d (pieces out)
    (fun _ _ => trivial) d (.of_same rfl rfl)
  have hkeep : ((createDirAll (pieces out)).run d).2.tree.read (pieces zip) = .ok data := by
    cases hr : (createDirAll (pieces out)).run d with
    | mk r d' =>
      rw [hr] at hspec
      cases r with
      | ok u => exact hspec.1.read hread
      | error e => exact Grown.read hspec hread
  rw [hkeep] at hread'
  cases hread'
  rw [hparse] at hparse'
  cases hparse'
  rfl

theorem exists_fresh (ws : List (List (Piece Text))) (p : List Text) :
    ∃ z, Legal z ∧ ¬ Needed ws [z] ∧ [z] ≠ p := by
  let name (k : Nat) : Text := List.replicate (k + 1) 'a'
  have hlegal : ∀ k, Legal (name k) := by
    intro k
    have hmem : ∀ x ∈ name k, x = 'a' := fun x hx => (List.mem_replicate.mp hx).2
    refine ⟨by simp [name], fun h => ?_, fun h => ?_, fun h => ?_⟩
    · exact absurd (hmem _ h) (by decide)
    · exact absurd (hmem '.' (by simp [h])) (by decide)
    · exact absurd (hmem '.' (by simp [h])) (by decide)
  have hinj : Function.Injective fun k => [name k] := by
    intro k k' h
    have hlen := congrArg List.length (List.singleton_inj.mp h)
    simp only [name, List.length_replicate] at hlen
    omega
  by_contra hnone
  have hall : ∀ k, [name k] ∈ {q | Needed ws q} ∪ {p} := by
    intro k
    by_contra hk
    simp only [Set.mem_union, Set.mem_ofPred_eq, Set.mem_singleton_iff, not_or] at hk
    exact hnone ⟨name k, hlegal k, hk.1, hk.2⟩
  exact Set.infinite_of_injective_forall_mem hinj hall
    ((needed_finite ws).union (Set.finite_singleton p))

theorem exists_stage {ws : List (List (Piece Text))} (hne : ws ≠ []) (p : List Text)
    (data : Bytes) : ∃ (t : Tree Text Bytes) (z : Text), Ground ws t ∧
      t.read (pieces z) = .ok data ∧ (¬ Needed ws p → t.node p = none) := by
  obtain ⟨z, hz, hfresh, hp⟩ := exists_fresh ws p
  obtain ⟨t, ht⟩ := exists_scaffold Bytes hne
  have hdir : t.node ([] ++ [z]) ≠ some .dir := by
    have hnone : t.node ([] ++ [z]) = none := (ht [z]).2 hfresh
    rw [hnone]
    exact Option.some_ne_none _ |>.symm
  have hnode : (t.put [] z (.file data) t.root hdir).node =
      Function.update t.node [z] (some (.file data)) := t.put_node t.root hdir
  refine ⟨t.put [] z (.file data) t.root hdir, z, fun q => ?_, ?_, fun hn => ?_⟩
  · rw [hnode]
    by_cases hq : q = [z]
    · subst hq
      exact iff_of_false (by simp) hfresh
    · rw [Function.update_of_ne hq]
      by_cases hn : Needed ws q
      · exact iff_of_true ((ht q).1 hn) hn
      · exact iff_of_false (by simp [(ht q).2 hn]) hn
  · rw [pieces_legal hz]
    change (t.put [] z (.file data) t.root hdir).read ([z].map .down) = .ok data
    refine Tree.read_downs.mpr ?_
    rw [hnode]
    exact Function.update_self _ _ _
  · rw [hnode, Function.update_of_ne hp.symm]
    exact (ht p).2 hn

end Stage

end UnBoxer.Staging
