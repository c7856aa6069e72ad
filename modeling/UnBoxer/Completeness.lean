import UnBoxer.Instances
import UnBoxer.Staging

namespace UnBoxer.Completeness

open UnBoxer.Trees UnBoxer.Programs UnBoxer.DirAll UnBoxer.Effects UnBoxer.Scaffolds
open UnBoxer.PathText UnBoxer.Archives UnBoxer.EscapeJson UnBoxer.TryExtract UnBoxer.Endings
open UnBoxer.Extraction UnBoxer.Staging UnBoxer.Instances

section Law

variable (c : Crates) (out : Text) (rs : List Record)

/-- The target of every directory entry is a directory, and that of every file
entry a file with just its bytes. -/
def Complete (t : Tree Text Bytes) : Prop :=
  ∀ r ∈ rs, if c.isDir r.name then t.Open [] (target out r.name)
    else t.read (target out r.name) = .ok r.data

/-- The output directory and the parents of the files include the directories of
all other entries, and no two files get different bytes at one place. -/
structure Covered : Prop where
  directories : ∀ r ∈ rs, c.isDir r.name = true → ∀ qs, qs <+: target out r.name →
    Needed (walks c out rs) (resolve [] qs)
  files : ∀ r ∈ rs, ∀ r' ∈ rs, c.isDir r.name = false → c.isDir r'.name = false →
    placeOf out r = placeOf out r' → r.data = r'.data

variable {c out rs}

theorem tryExtract_held {zip : Text} {d : Disk Text UInt8} (hopens : Opens c zip out d rs) :
    Triple (· = d) (tryExtract c zip out) (fun _ d' => Held c out rs d'.tree) (fun _ _ => True) := by
  refine (tryExtract_rule hopens (I := fun before d' => Held c out before d'.tree)
    (E := fun _ => True) (fun _ _ => trivial) (fun d' _ ho => held_start ho)
    fun before r after i _ => Triple.each fun d₁ h₁ => ?_).weaken (fun _ h => h)
    (fun _ _ h => h.2) (fun _ _ _ => trivial)
  refine (triple_after (extractEntry_spec r i d₁)).weaken (fun _ hd => hd) ?_
    (fun _ _ _ => trivial)
  rintro _ d' ⟨⟨_, hdone⟩, hafter⟩
  exact h₁.step hdone hafter

theorem complete_of_held {t : Tree Text Bytes} (h : Held c out rs t) (hc : Covered c out rs) :
    Complete c out rs t := by
  intro r hr
  split
  · rename_i hdir
    exact fun qs hqs => needed_dir h.walked (hc.directories r hr hdir qs hqs)
  · rename_i hfile
    rw [Bool.not_eq_true] at hfile
    obtain ⟨_, ⟨qs, n, hpath⟩, r', hr', hfile', hplace, hnode⟩ := h.files r hr hfile
    rw [hc.files r hr r' hr' hfile hfile' hplace.symm]
    have hopen := h.walked _ (mem_walks hr hfile)
    rw [hpath, List.dropLast_concat] at hopen
    exact Tree.read_ok.mpr ⟨qs, n, hpath, hopen, hnode⟩

/-- What holds of all trees that an extraction can leave behind. -/
theorem covered_of_complete {t : Tree Text Bytes} (hground : Ground (walks c out rs) t)
    (h : Complete c out rs t) : Covered c out rs where
  directories r hr hdir qs hqs := by
    have hopen := h r hr
    rw [if_pos hdir] at hopen
    exact (hground _).mp (hopen qs hqs)
  files r hr r' hr' hfile hfile' hplace := by
    have hread := h r hr
    have hread' := h r' hr'
    rw [if_neg (by simp [hfile])] at hread
    rw [if_neg (by simp [hfile'])] at hread'
    obtain ⟨_, _, _, _, hnode⟩ := Tree.read_ok.mp hread
    obtain ⟨_, _, _, _, hnode'⟩ := Tree.read_ok.mp hread'
    change t.node (placeOf out r) = _ at hnode
    rw [hplace] at hnode
    have heq := hnode.symm.trans hnode'
    simpa using heq

/-- An archive that can be extracted at all can be with all directory entries failing. -/
theorem exists_passed {data : Bytes} (hparse : c.parse data = .ok rs)
    (hcomp : Compatible c out (walks c out rs) rs) :
    ∃ (zip : Text) (d : Disk Text UInt8), Opens c zip out d rs ∧
      ((tryExtract c zip out).run d).1 = .ok extractResponse ∧
      Ground (walks c out rs) ((tryExtract c zip out).run d).2.tree := by
  obtain ⟨t, z, hground, hread, _⟩ := exists_stage (walks_ne_nil c out rs) [] data
  have hopen : t.Open [] (pieces out) :=
    hground.open ⟨_, List.mem_cons_self, List.prefix_refl _⟩
  have hwalks : ∀ r ∈ rs, c.isDir r.name = false →
      ∃ ps ∈ walks c out rs, (target out r.name).dropLast <+: ps :=
    fun r hr hfile => ⟨_, mem_walks hr hfile, List.prefix_refl _⟩
  obtain ⟨t', hpass, hground', _⟩ := passes_entries rs 0 hground hcomp hwalks
  obtain ⟨l, hends⟩ := passes_tryExtract hopen hread hparse hpass
  obtain ⟨faults, hrun⟩ := hends.run
  refine ⟨z, ⟨t, faults ++ [], []⟩, opens_of_read hread hparse, ?_, ?_⟩
  · rw [hrun]
  · rw [hrun]
    exact hground'

/-- The archives of which every extraction that succeeds is complete, on every
disk and whatever calls fail. -/
theorem complete_iff_covered (hparse : ∃ data, c.parse data = .ok rs) :
    (∀ zip d, Opens c zip out d rs →
      ((tryExtract c zip out).run d).1 = .ok extractResponse →
      Complete c out rs ((tryExtract c zip out).run d).2.tree) ↔
    (Compatible c out (walks c out rs) rs → Covered c out rs) := by
  constructor
  · intro h hcomp
    obtain ⟨data, hparse⟩ := hparse
    obtain ⟨zip, d, hopens, hok, hground⟩ := exists_passed hparse hcomp
    exact covered_of_complete hground (h zip d hopens hok)
  · intro h zip d hopens hok
    have hheld := (tryExtract_held hopens).of_ok rfl hok
    exact complete_of_held hheld (h (hheld.compatible (After.refl _) hheld.walked))

end Law

section Example

def records : List Record := [⟨['d', '/'], []⟩]

def faultyDisk : Disk Text UInt8 :=
  fileDisk ['z'] (archive.put records) [none, none, none, none, some 0]

theorem directory_dropped : Opens crates ['z'] ['o'] faultyDisk records ∧
    ((tryExtract crates ['z'] ['o']).run faultyDisk).1 = .ok extractResponse ∧
    ¬ Complete crates ['o'] records ((tryExtract crates ['z'] ['o']).run faultyDisk).2.tree := by
  refine ⟨@opens_of_read _ _ _ _ (archive.put records) _ (by decide +kernel) (by decide +kernel),
    by decide +kernel, fun h => ?_⟩
  have hopen := h ⟨['d', '/'], []⟩ List.mem_cons_self
  rw [if_pos (by decide)] at hopen
  have hdir := hopen.dir
  have hnone : ((tryExtract crates ['z'] ['o']).run faultyDisk).2.tree.node
      (resolve [] (target ['o'] ['d', '/'])) = none := by decide +kernel
  rw [hnone] at hdir
  cases hdir

theorem roundabout_covered : Covered crates ['o'] roundabout where
  directories r hr hdir qs hqs := by
    have hall : ∀ r ∈ roundabout, crates.isDir r.name = true →
        ∀ qs ∈ (target ['o'] r.name).inits,
          Needed (walks crates ['o'] roundabout) (resolve [] qs) := by
      decide +kernel
    exact hall r hr hdir qs ((List.mem_inits qs _).mpr hqs)
  files := by
    decide +kernel

theorem complete_iff_covered_roundabout : Covered crates ['o'] roundabout ∧
    ∀ zip d, Opens crates zip ['o'] d roundabout →
      ((tryExtract crates zip ['o']).run d).1 = .ok extractResponse →
      Complete crates ['o'] roundabout ((tryExtract crates zip ['o']).run d).2.tree :=
  ⟨roundabout_covered, (complete_iff_covered parse_roundabout).mpr fun _ => roundabout_covered⟩

end Example

end UnBoxer.Completeness
