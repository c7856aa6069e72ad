import UnBoxer.DirAll

namespace UnBoxer.DirAllSteps

open UnBoxer.Trees UnBoxer.Programs UnBoxer.DirAll

variable {Name γ ε ε' ε'' α α' α'' : Type}

section Laws

theorem handle_handle (p : Prog Name γ ε α) (f : Except ε α → Prog Name γ ε' α')
    (g : Except ε' α' → Prog Name γ ε'' α'') :
    (p.handle f).handle g = p.handle fun r => (f r).handle g := by
  induction p with
  | done r => rfl
  | call c k ih =>
    apply congrArg (Prog.call c)
    funext r
    exact ih r

theorem handle_bind (p : Prog Name γ ε α) (f : Except ε α → Prog Name γ ε' α')
    (g : α' → Prog Name γ ε' α'') : (p.handle f).bind g = p.handle fun r => (f r).bind g := by
  induction p with
  | done r => rfl
  | call c k ih =>
    apply congrArg (Prog.call c)
    funext r
    exact ih r

theorem bind_done (p : Prog Name γ ε Unit) : (p.bind fun _ => .done (.ok ())) = p := by
  induction p with
  | done r => cases r <;> rfl
  | call c k ih =>
    apply congrArg (Prog.call c)
    funext r
    exact ih r

end Laws

variable [DecidableEq Name]

/-- Where `create_dir_all` is: on its way up, at the question whether a directory is in its way,
or on its way down, with `k` levels between it and the whole path. -/
inductive Phase where
  | climb (k : Nat)
  | check (k : Nat) (e : Errno)
  | descend (k : Nat)

def level (ps : List (Piece Name)) : Nat → List (Piece Name)
  | 0 => ps
  | k + 1 => parent (level ps k)

/-- The directories of the lowest `k` levels, which are made on the way down. -/
def descent (ps : List (Piece Name)) : Nat → Prog Name γ Errno Unit
  | 0 => .done (.ok ())
  | k + 1 => (mkdirOrDir (level ps k)).bind fun _ => descent ps k

def Phase.prog (ps : List (Piece Name)) : Phase → Prog Name γ Errno Unit
  | .climb k => (makeAll ((components ps).length - k) (level ps k)).bind fun _ => descent ps k
  | .check k e => (orDir (level ps k) e).bind fun _ => descent ps k
  | .descend k => descent ps (k + 1)

theorem createDirAll_eq (ps : List (Piece Name)) :
    (createDirAll ps : Prog Name γ Errno Unit) = (Phase.climb 0).prog ps := (bind_done _).symm

inductive Outcome where
  | goes (ph : Phase)
  | ends (r : Except Errno Unit)

def Outcome.prog (ps : List (Piece Name)) : Outcome → Prog Name γ Errno Unit
  | .goes ph => ph.prog ps
  | .ends r => .done r

def below : Nat → Outcome
  | 0 => .ends (.ok ())
  | k + 1 => .goes (.descend k)

theorem below_prog (ps : List (Piece Name)) (k : Nat) :
    ((below k).prog ps : Prog Name γ Errno Unit) = descent ps k := by
  cases k <;> rfl

/-- The calls of `create_dir_all`, and what follows on each answer. -/
inductive Moves (ps : List (Piece Name)) :
    Phase → (c : Call Name γ) → c.Reply → Outcome → Prop
  | made (k : Nat) : Moves ps (.climb k) (.mkdir (level ps k)) (.ok ()) (below k)
  | missing {k : Nat} (h : k < (components ps).length) :
      Moves ps (.climb k) (.mkdir (level ps k)) (.error .notFound) (.goes (.climb (k + 1)))
  | top {k : Nat} (h : (components ps).length ≤ k) :
      Moves ps (.climb k) (.mkdir (level ps k)) (.error .notFound) (.ends (.error .failed))
  | barred (k : Nat) {e : Errno} (h : e ≠ .notFound) :
      Moves ps (.climb k) (.mkdir (level ps k)) (.error e) (.goes (.check k e))
  | isDir (k : Nat) (e : Errno) : Moves ps (.check k e) (.isDir (level ps k)) true (below k)
  | noDir (k : Nat) (e : Errno) :
      Moves ps (.check k e) (.isDir (level ps k)) false (.ends (.error e))
  | down (k : Nat) : Moves ps (.descend k) (.mkdir (level ps k)) (.ok ()) (below k)
  | stuck (k : Nat) (e : Errno) :
      Moves ps (.descend k) (.mkdir (level ps k)) (.error e) (.goes (.check k e))

theorem Phase.moves (ps : List (Piece Name)) (ph : Phase) :
    ∃ (c : Call Name γ) (k : c.Reply → Prog Name γ Errno Unit), ph.prog ps = .call c k ∧
      ∀ r, ∃ o, Moves ps ph c r o ∧ k r = o.prog ps := by
  cases ph with
  | climb k =>
    by_cases hk : k < (components ps).length
    · have hn : (components ps).length - k = (components ps).length - (k + 1) + 1 := by omega
      refine ⟨.mkdir (level ps k), _, by rw [Phase.prog, hn, makeAll]; rfl, fun r => ?_⟩
      cases r with
      | ok u => exact ⟨_, .made k, (below_prog ps k).symm⟩
      | error e =>
        by_cases he : e = .notFound
        · subst he
          exact ⟨_, .missing hk, Prog.bind_assoc _ _ _⟩
        · refine ⟨_, .barred k he, ?_⟩
          cases e with
          | notFound => exact absurd rfl he
          | _ => rfl
    · have hn : (components ps).length - k = 0 := by omega
      refine ⟨.mkdir (level ps k), _, by rw [Phase.prog, hn, makeAll]; rfl, fun r => ?_⟩
      cases r with
      | ok u => exact ⟨_, .made k, (below_prog ps k).symm⟩
      | error e =>
        by_cases he : e = .notFound
        · subst he
          exact ⟨_, .top (by omega), rfl⟩
        · refine ⟨_, .barred k he, ?_⟩
          cases e with
          | notFound => exact absurd rfl he
          | _ => rfl
  | check k e =>
    refine ⟨.isDir (level ps k), _, rfl, fun (b : Bool) => ?_⟩
    cases b with
    | true => exact ⟨_, .isDir k e, (below_prog ps k).symm⟩
    | false => exact ⟨_, .noDir k e, rfl⟩
  | descend k =>
    refine ⟨.mkdir (level ps k), _, rfl, fun r => ?_⟩
    cases r with
    | ok u => exact ⟨_, .down k, (below_prog ps k).symm⟩
    | error e => exact ⟨_, .stuck k e, rfl⟩

end UnBoxer.DirAllSteps
