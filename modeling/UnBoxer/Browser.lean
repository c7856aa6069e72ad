import UnBoxer.Instances
import UnBoxer.Runs
import UnBoxer.ViewModel

namespace UnBoxer.Browser

open UnBoxer.Programs UnBoxer.DirAll UnBoxer.PathText UnBoxer.Archives UnBoxer.TryBackup
open UnBoxer.BackupEngine UnBoxer.ViewModel UnBoxer.Runs UnBoxer.Instances

inductive Press where
  | enter (url : List Text)
  | back

section Law

variable (F : Foundation) (fm : FileManager) (e : BackupEntry)

/-- Only a directory that is shown can be entered. -/
inductive Step : BackupViewModel → Press → BackupViewModel → Prop
  | enter {m : BackupViewModel} {item : FileItem} :
      item ∈ m.directoryContents → item.isDirectory = true →
      Step m (.enter item.url) (enterDirectory fm item.url m)
  | back {m : BackupViewModel} : Step m .back (goBack fm F m)

/-- The browser shows the extracted directory or one below it, or was left. -/
def Inside (m : BackupViewModel) : Prop :=
  m.currentDirectory = none ∨ ∃ p, m.currentDirectory = some (extractedDirectory F e ++ p)

/-- Going back leaves the browser exactly at the extracted directory, and moves
to the parent from everywhere below. -/
def Undoes (m m' : BackupViewModel) : Prop :=
  (∀ p, m.currentDirectory = some (extractedDirectory F e ++ p) →
    (m'.currentDirectory = none ↔ p = [])) ∧
  ∀ p n, m.currentDirectory = some (extractedDirectory F e ++ p ++ [n]) →
    m'.currentDirectory = some (extractedDirectory F e ++ p) ∧
      m'.directoryContents = listing fm (extractedDirectory F e ++ p)

def Lawful (m : BackupViewModel) (a : Press) (m' : BackupViewModel) : Prop :=
  Inside F e m' ∧ (a = .back → Undoes F fm e m m')

/-- Nobody goes back from the extracted directory or from a child of it. -/
def Deep (m : BackupViewModel) : Press → Prop
  | .enter _ => True
  | .back => ∀ p, m.currentDirectory = some (extractedDirectory F e ++ p) → 2 ≤ p.length

structure At (p : List Text) (m : BackupViewModel) : Prop where
  selected : m.selectedBackup = some e
  current : m.currentDirectory = some (extractedDirectory F e ++ p)
  contents : m.directoryContents = listing fm (extractedDirectory F e ++ p)

variable {F fm e}

theorem At.expected {p : List Text} {m : BackupViewModel} (h : At F fm e p m) :
    expectedExtracted F m = extractedDirectory F e := by
  rw [expectedExtracted, h.selected, extractedDirectory]
  simp

theorem extracted_length : (extractedDirectory F e).length = (backupsDirectory F).length + 2 := by
  simp [extractedDirectory]

theorem goBack_root {m : BackupViewModel} (h : At F fm e [] m) :
    (goBack fm F m).currentDirectory = some (backupsDirectory F ++ [e.relativePath]) := by
  have hd : (extractedDirectory F e ++ []).dropLast = backupsDirectory F ++ [e.relativePath] := by
    rw [List.append_nil, extractedDirectory]
    exact List.dropLast_append_of_ne_nil (by simp)
  have hx : backupsDirectory F ++ [e.relativePath] ≠ extractedDirectory F e := by
    intro heq
    have hl := congrArg List.length heq
    rw [extracted_length, List.length_append, List.length_singleton] at hl
    omega
  have hb : backupsDirectory F ++ [e.relativePath] ≠ backupsDirectory F := by simp
  unfold goBack
  rw [h.current]
  simp only [hd, h.expected]
  rw [if_neg (not_or.mpr ⟨hx, hb⟩)]
  rfl

theorem goBack_child {n : Text} {m : BackupViewModel} (h : At F fm e [n] m) :
    goBack fm F m = clearExtraction m := by
  unfold goBack
  rw [h.current]
  simp only [List.dropLast_concat, h.expected, true_or, if_true]

theorem goBack_deep {p : List Text} {n : Text} {m : BackupViewModel} (hp : p ≠ [])
    (h : At F fm e (p ++ [n]) m) : At F fm e p (goBack fm F m) := by
  have hlen := List.length_pos_iff.mpr hp
  have hx : extractedDirectory F e ++ p ≠ extractedDirectory F e := by simp [hp]
  have hb : extractedDirectory F e ++ p ≠ backupsDirectory F := by
    intro heq
    have hl := congrArg List.length heq
    rw [List.length_append, extracted_length] at hl
    omega
  have hc := h.current
  rw [← List.append_assoc] at hc
  unfold goBack
  rw [hc]
  simp only [List.dropLast_concat, h.expected]
  rw [if_neg (not_or.mpr ⟨hx, hb⟩)]
  exact ⟨h.selected, rfl, rfl⟩

theorem enter_at {p : List Text} {m m' : BackupViewModel} {url : List Text} (h : At F fm e p m)
    (hs : Step F fm m (.enter url) m') : ∃ n, At F fm e (p ++ [n]) m' := by
  cases hs with
  | enter hi _ =>
    rw [h.contents] at hi
    obtain ⟨n, hn⟩ := listing_url fm hi
    rw [hn, List.append_assoc]
    exact ⟨n, h.selected, rfl, rfl⟩

theorem At.inside {p : List Text} {m : BackupViewModel} (h : At F fm e p m) : Inside F e m :=
  .inr ⟨p, h.current⟩

theorem At.path_eq {p q : List Text} {m : BackupViewModel} (h : At F fm e p m)
    (hq : m.currentDirectory = some (extractedDirectory F e ++ q)) : q = p := by
  have he := h.current.symm.trans hq
  simpa using he.symm

theorem deep_lawful {p : List Text} {m m' : BackupViewModel} {a : Press} (h : At F fm e p m)
    (hs : Step F fm m a m') (hd : Deep F e m a) :
    (∃ q, At F fm e q m') ∧ Lawful F fm e m a m' := by
  cases a with
  | enter url =>
    obtain ⟨n, hn⟩ := enter_at h hs
    exact ⟨⟨_, hn⟩, hn.inside, fun ha => by cases ha⟩
  | back =>
    cases hs
    have hlen := hd p h.current
    induction p using List.reverseRecOn with
    | nil => simp at hlen
    | append_singleton q n _ =>
      have hq : q ≠ [] := by
        rintro rfl
        simp at hlen
      have hback := goBack_deep hq h
      refine ⟨⟨q, hback⟩, hback.inside, fun _ => ⟨fun r hr => ?_, fun r k hr => ?_⟩⟩
      · rw [h.path_eq hr, hback.current]
        simp
      · rw [List.append_assoc] at hr
        obtain ⟨rfl, _⟩ := List.append_inj' (h.path_eq hr) rfl
        exact ⟨hback.current, hback.contents⟩

theorem lawful_deep {p : List Text} {m m' : BackupViewModel} {a : Press} (h : At F fm e p m)
    (hs : Step F fm m a m') (hl : Lawful F fm e m a m') : Deep F e m a := by
  cases a with
  | enter url => trivial
  | back =>
    cases hs
    intro q hq
    rw [h.path_eq hq]
    obtain ⟨hleave, hparent⟩ := hl.2 rfl
    induction p using List.reverseRecOn with
    | nil =>
      have hnone := (hleave [] h.current).mpr rfl
      rw [goBack_root h] at hnone
      cases hnone
    | append_singleton r n _ =>
      by_cases hr : r = []
      · subst hr
        have hp := hparent [] n (by simpa using h.current)
        rw [goBack_child h] at hp
        cases hp.1
      · have hpos := List.length_pos_iff.mpr hr
        rw [List.length_append, List.length_singleton]
        omega

theorem selectBackup_at {dir : List Text} (m : BackupViewModel)
    (hdir : dir = extractedDirectory F e) : At F fm e [] (selectBackup fm e (.ok dir) m) := by
  subst hdir
  exact ⟨rfl, by simp [selectBackup, loadContents], by simp [selectBackup, loadContents]⟩

theorem ensureExtracted_url (F : Foundation) (c : Crates) (e : BackupEntry) :
    Triple (fun _ => True) (ensureExtracted F c e) (fun dir _ => dir = extractedDirectory F e)
      (fun _ _ => True) := by
  unfold ensureExtracted
  generalize extractedDirectory F e = dir
  refine Triple.bind Triple.any fun _ => Triple.call (fun _ _ => True) (fun _ _ => trivial) ?_
  rintro (_ | _)
  · exact Triple.bind Triple.any fun _ => Triple.ok fun _ _ => rfl
  · exact Triple.ok fun _ _ => rfl

/-- The runs in which every press obeys the law are those in which nobody goes
back from the extracted directory or from a child of it. -/
theorem lawful_iff_deep {c : Crates} {d : Disk Text UInt8} {dir : List Text}
    (hx : ((ensureExtracted F c e).run d).1 = .ok dir) (m : BackupViewModel) (as : List Press)
    (m' : BackupViewModel) :
    Run (fun m a m' => Step F fm m a m' ∧ Lawful F fm e m a m')
        (selectBackup fm e ((ensureExtracted F c e).run d).1 m) as m' ↔
      Run (fun m a m' => Step F fm m a m' ∧ Deep F e m a)
        (selectBackup fm e ((ensureExtracted F c e).run d).1 m) as m' := by
  have hdir := (ensureExtracted_url F c e).of_ok trivial hx
  have hstart : ∃ p, At F fm e p (selectBackup fm e ((ensureExtracted F c e).run d).1 m) := by
    rw [hx]
    exact ⟨[], selectBackup_at m hdir⟩
  apply run_and_congr (I := fun s => ∃ p, At F fm e p s) hstart
  rintro s a s' ⟨p, hp⟩ hstep
  have hdeep : Deep F e s a → (∃ q, At F fm e q s') ∧ Lawful F fm e s a s' := deep_lawful hp hstep
  exact ⟨⟨lawful_deep hp hstep, fun hd => (hdeep hd).2⟩, fun hd => (hdeep hd).1⟩

theorem goBack_iterate {p : List Text} {m : BackupViewModel} (hp : p ≠ []) (h : At F fm e p m) :
    ((goBack fm F)^[p.length] m).currentDirectory = none ∧
      ∀ k < p.length, ((goBack fm F)^[k] m).currentDirectory ≠ none := by
  induction p using List.reverseRecOn generalizing m with
  | nil => exact absurd rfl hp
  | append_singleton q n ih =>
    rw [List.length_append, List.length_singleton, Function.iterate_succ_apply]
    by_cases hq : q = []
    · subst hq
      refine ⟨by rw [goBack_child h]; rfl, fun k hk => ?_⟩
      obtain rfl : k = 0 := by simpa using hk
      simp [h.current]
    · obtain ⟨hleft, hin⟩ := ih hq (goBack_deep hq h)
      refine ⟨hleft, fun k hk => ?_⟩
      cases k with
      | zero => simp [h.current]
      | succ k =>
        rw [Function.iterate_succ_apply]
        apply hin
        omega

end Law

section Example

abbrev extracted : List Text := extractedDirectory foundation firstEntry

def extractedDisk : Disk Text UInt8 :=
  ((createDirAll (pieces (absolute (extracted ++ [['d'], ['e']])))).run emptyDisk).2

def children (url : List Text) : List Text :=
  if url = extracted then [['d']] else if url = extracted ++ [['d']] then [['e']] else []

def directories : FileManager where
  contentsOfDirectory url := some (children url)
  contents _ := none
  resourceValues _ := some ⟨some true, none, some 0⟩
  ascending _ _ := false
  date := 0

def closed : BackupViewModel := ⟨[], none, none, [], false, none⟩

def opened : BackupViewModel :=
  selectBackup directories firstEntry
    ((ensureExtracted foundation crates firstEntry).run extractedDisk).1 closed

theorem extractedDisk_url :
    ((ensureExtracted foundation crates firstEntry).run extractedDisk).1 = .ok extracted := by
  decide +kernel

theorem opened_at : At foundation directories firstEntry [] opened := by
  unfold opened
  rw [extractedDisk_url]
  exact selectBackup_at _ rfl

def shown (url : List Text) (n : Text) : FileItem := ⟨url ++ [n], n, true, 0, 0⟩

theorem mem_listing {url : List Text} {n : Text} (h : children url = [n]) :
    shown url n ∈ listing directories url := by
  have hl : listing directories url =
      sorted (itemBefore directories) ([n].filterMap fun n => fileItem directories (url ++ [n])) := by
    unfold listing
    rw [← h]
    rfl
  rw [hl]
  simp [sorted, fileItem, directories, shown]

def inChild : BackupViewModel := enterDirectory directories (extracted ++ [['d']]) opened

def inGrandchild : BackupViewModel :=
  enterDirectory directories (extracted ++ [['d']] ++ [['e']]) inChild

theorem enter_child : Step foundation directories opened (.enter (extracted ++ [['d']])) inChild := by
  have hm : shown extracted ['d'] ∈ opened.directoryContents := by
    rw [opened_at.contents, List.append_nil]
    exact mem_listing (by decide)
  exact .enter hm rfl

theorem enter_grandchild : Step foundation directories inChild
    (.enter (extracted ++ [['d']] ++ [['e']])) inGrandchild := by
  have hm : shown (extracted ++ [['d']]) ['e'] ∈ inChild.directoryContents :=
    mem_listing (by decide)
  exact .enter hm rfl

theorem inChild_at : At foundation directories firstEntry [['d']] inChild :=
  ⟨opened_at.selected, rfl, rfl⟩

theorem inGrandchild_at : At foundation directories firstEntry [['d'], ['e']] inGrandchild :=
  ⟨opened_at.selected, by simp [inGrandchild, enterDirectory, loadContents], by
    simp [inGrandchild, enterDirectory, loadContents]⟩

theorem lawful_grandchild : Run
    (fun m a m' => Step foundation directories m a m' ∧
      Lawful foundation directories firstEntry m a m')
    (selectBackup directories firstEntry
      ((ensureExtracted foundation crates firstEntry).run extractedDisk).1 closed)
    [.enter (extracted ++ [['d']]), .enter (extracted ++ [['d']] ++ [['e']]), .back]
    (goBack directories foundation inGrandchild) := by
  refine (lawful_iff_deep extractedDisk_url closed _ _).mpr ?_
  refine .cons ⟨enter_child, trivial⟩ (.cons ⟨enter_grandchild, trivial⟩
    (.cons ⟨.back, fun p hp => ?_⟩ .nil))
  rw [inGrandchild_at.path_eq hp]
  exact Nat.le_refl 2

/-- One press leaves the browser from a child of the extracted directory, and
one shows the directory of the backup instead of leaving from the former. -/
theorem back_leaves_early :
    Run (Step foundation directories) opened [.enter (extracted ++ [['d']]), .back]
      (goBack directories foundation inChild) ∧
    (goBack directories foundation inChild).currentDirectory = none ∧
    Run (Step foundation directories) opened [.back] (goBack directories foundation opened) ∧
    ¬ Inside foundation firstEntry (goBack directories foundation opened) := by
  refine ⟨.cons enter_child (.cons .back .nil), ?_, .cons .back .nil, ?_⟩
  · rw [goBack_child inChild_at]
    rfl
  · unfold Inside
    rw [goBack_root opened_at]
    rintro (h | ⟨p, h⟩)
    · cases h
    · have hl := congrArg List.length (Option.some.inj h)
      rw [List.length_append, List.length_append, extracted_length, List.length_singleton] at hl
      omega

end Example

end UnBoxer.Browser
