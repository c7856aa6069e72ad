import UnBoxer.TreeUpdates

namespace UnBoxer.Programs

open UnBoxer.Trees

variable {Name γ ε ε' α α' : Type}

/-- The system calls. A file is read when it is opened (`load`), and `next`
reads on in it. `write` gives the open file at `p` its content, and a failing
one a proper part of it. -/
inductive Call (Name γ : Type) where
  | mkdir (ps : List (Piece Name))
  | isDir (ps : List (Piece Name))
  | fileExists (ps : List (Piece Name))
  | load (ps : List (Piece Name))
  | next
  | create (ps : List (Piece Name))
  | write (p : List Name) (data : List γ)

@[reducible] def Call.Reply : Call Name γ → Type
  | .mkdir _ => Except Errno Unit
  | .isDir _ => Bool
  | .fileExists _ => Bool
  | .load _ => Except Errno (List γ)
  | .next => Except Errno Unit
  | .create _ => Except Errno (List Name)
  | .write _ _ => Except Errno Unit

/-- A program: what it returns, or the call it makes next. -/
inductive Prog (Name γ ε α : Type) where
  | done (r : Except ε α)
  | call (c : Call Name γ) (k : c.Reply → Prog Name γ ε α)

namespace Prog

def bind : Prog Name γ ε α → (α → Prog Name γ ε α') → Prog Name γ ε α'
  | .done (.ok a), f => f a
  | .done (.error e), _ => .done (.error e)
  | .call c k, f => .call c (fun r => (k r).bind f)

instance : Monad (Prog Name γ ε) where
  pure a := .done (.ok a)
  bind := bind

theorem bind_assoc {α'' : Type} (p : Prog Name γ ε α) (f : α → Prog Name γ ε α')
    (g : α' → Prog Name γ ε α'') : (p.bind f).bind g = p.bind fun a => (f a).bind g := by
  induction p with
  | done r => cases r <;> rfl
  | call c k ih =>
    apply congrArg (Prog.call c)
    funext r
    exact ih r

def fail (e : ε) : Prog Name γ ε α := .done (.error e)

def handle (p : Prog Name γ ε α) (f : Except ε α → Prog Name γ ε' α') : Prog Name γ ε' α' :=
  match p with
  | .done r => f r
  | .call c k => .call c (fun r => (k r).handle f)

def mapErr (f : ε → ε') (p : Prog Name γ ε α) : Prog Name γ ε' α :=
  p.handle fun r => .done (r.mapError f)

def ignore (p : Prog Name γ ε α) : Prog Name γ ε' Unit := p.handle fun _ => .done (.ok ())

def fold {ι σ : Type} (body : σ → ι → Prog Name γ ε σ) : σ → List ι → Prog Name γ ε σ
  | s, [] => .done (.ok s)
  | s, x :: xs => (body s x).bind (fun s => fold body s xs)

def forEach {ι : Type} (body : ι → Prog Name γ ε Unit) : List ι → Prog Name γ ε Unit :=
  fold (fun _ x => body x) ()

theorem forEach_append {ι : Type} (body : ι → Prog Name γ ε Unit) (xs ys : List ι) :
    forEach body (xs ++ ys) = (forEach body xs).bind fun _ => forEach body ys := by
  induction xs with
  | nil => rfl
  | cons x xs ih =>
    change (body x).bind (fun _ => forEach body (xs ++ ys)) = _
    rw [ih]
    exact (bind_assoc _ _ _).symm

end Prog

def load (ps : List (Piece Name)) : Prog Name γ Errno (List γ) := .call (.load ps) .done

def next : Prog Name γ Errno Unit := .call .next .done

def create (ps : List (Piece Name)) : Prog Name γ Errno (List Name) := .call (.create ps) .done

def write (p : List Name) (data : List γ) : Prog Name γ Errno Unit := .call (.write p data) .done

/-- A disk: the tree, for each coming call whether it fails (and after how much
of the data when it is a write), and the paths created, cut down or written. -/
structure Disk (Name γ : Type) where
  tree : Tree Name (List γ)
  faults : List (Option Nat)
  touched : List (List Name)

section Run

variable [DecidableEq Name]

def Call.apply (t : Tree Name (List γ)) : (c : Call Name γ) → Option Nat →
    c.Reply × Tree Name (List γ) × List (List Name)
  | .mkdir ps, none =>
    match t.mkdir ps with
    | .ok t' => (.ok (), t', [resolve [] ps])
    | .error e => (.error e, t, [])
  | .mkdir _, some _ => (.error .failed, t, [])
  | .isDir ps, none => ((t.walk [] ps).isOk, t, [])
  | .isDir _, some _ => (false, t, [])
  | .fileExists ps, _ => (t.present ps, t, [])
  | .load ps, none => (t.read ps, t, [])
  | .load _, some _ => (.error .failed, t, [])
  | .next, none => (.ok (), t, [])
  | .next, some _ => (.error .failed, t, [])
  | .create ps, none =>
    match t.create ps [] with
    | .ok (t', p) => (.ok p, t', [p])
    | .error e => (.error e, t, [])
  | .create _, some _ => (.error .failed, t, [])
  | .write p data, none => (.ok (), t.modify p (fun _ => data), [p])
  | .write p data, some k =>
    (.error .failed, t.modify p (fun _ => data.take (min k (data.length - 1))), [p])

def Call.exec (c : Call Name γ) (d : Disk Name γ) : c.Reply × Disk Name γ :=
  let (r, t, touched) := c.apply d.tree d.faults.head?.join
  (r, ⟨t, d.faults.tail, d.touched ++ touched⟩)

def Prog.run : Prog Name γ ε α → Disk Name γ → Except ε α × Disk Name γ
  | .done r, d => (r, d)
  | .call c k, d => (k (c.exec d).1).run (c.exec d).2

theorem run_call (c : Call Name γ) (k : c.Reply → Prog Name γ ε α) (d : Disk Name γ) :
    (Prog.call c k).run d = (k (c.exec d).1).run (c.exec d).2 := rfl

theorem run_bind (p : Prog Name γ ε α) (f : α → Prog Name γ ε α') (d : Disk Name γ) :
    (p.bind f).run d =
      match p.run d with
      | (.ok a, d') => (f a).run d'
      | (.error e, d') => (.error e, d') := by
  induction p generalizing d with
  | done r => cases r <;> rfl
  | call c k ih => exact ih _ _

theorem run_bind_ok {p : Prog Name γ ε α} {d d' : Disk Name γ} {a : α}
    (h : p.run d = (.ok a, d')) (f : α → Prog Name γ ε α') : (p.bind f).run d = (f a).run d' := by
  rw [run_bind, h]

theorem run_map (p : Prog Name γ ε α) (f : α → α') (d : Disk Name γ) :
    (p.bind fun a => .done (.ok (f a))).run d = ((p.run d).1.map f, (p.run d).2) := by
  rw [run_bind]
  cases p.run d with
  | mk r d' => cases r <;> rfl

theorem run_handle (p : Prog Name γ ε α) (f : Except ε α → Prog Name γ ε' α')
    (d : Disk Name γ) : (p.handle f).run d = (f (p.run d).1).run (p.run d).2 := by
  induction p generalizing d with
  | done r => rfl
  | call c k ih => exact ih _ _

theorem run_mapErr (f : ε → ε') (p : Prog Name γ ε α) (d : Disk Name γ) :
    (p.mapErr f).run d = ((p.run d).1.mapError f, (p.run d).2) := run_handle ..

theorem run_ignore (p : Prog Name γ ε α) (d : Disk Name γ) :
    (p.ignore : Prog Name γ ε' Unit).run d = (.ok (), (p.run d).2) := run_handle ..

/-- From every disk in `P`, the program ends in `Q` when it returns, and in `E`
when it fails. -/
def Triple (P : Disk Name γ → Prop) (p : Prog Name γ ε α) (Q : α → Disk Name γ → Prop)
    (E : ε → Disk Name γ → Prop) : Prop :=
  ∀ d, P d → match p.run d with
    | (.ok a, d') => Q a d'
    | (.error e, d') => E e d'

variable {P P' : Disk Name γ → Prop} {Q Q' : α → Disk Name γ → Prop}
  {E E' : ε → Disk Name γ → Prop}

theorem Triple.ok {a : α} (h : ∀ d, P d → Q a d) : Triple P (.done (.ok a)) Q E := h

theorem Triple.error {e : ε} (h : ∀ d, P d → E e d) : Triple P (.done (.error e)) Q E := h

theorem Triple.of_ok {p : Prog Name γ ε α} (h : Triple P p Q E) {d : Disk Name γ} (hd : P d)
    {a : α} (hr : (p.run d).1 = .ok a) : Q a (p.run d).2 := by
  have := h d hd
  cases hp : p.run d with
  | mk r d' =>
    rw [hp] at this hr
    cases hr
    exact this

theorem Triple.of_error {p : Prog Name γ ε α} (h : Triple P p Q E) {d : Disk Name γ} (hd : P d)
    {e : ε} (hr : (p.run d).1 = .error e) : E e (p.run d).2 := by
  have := h d hd
  cases hp : p.run d with
  | mk r d' =>
    rw [hp] at this hr
    cases hr
    exact this

theorem Triple.returns {p : Prog Name γ ε α} (h : Triple P p Q fun _ _ => False)
    {d : Disk Name γ} (hd : P d) : ∃ a, (p.run d).1 = .ok a ∧ Q a (p.run d).2 := by
  cases hr : (p.run d).1 with
  | ok a => exact ⟨a, rfl, h.of_ok hd hr⟩
  | error e => exact (h.of_error hd hr).elim

/-- What holds of the disk however a program ends. -/
theorem Triple.always {p : Prog Name γ ε α} {R : Disk Name γ → Prop}
    (h : ∀ d, P d → R (p.run d).2) : Triple P p (fun _ => R) (fun _ => R) := by
  intro d hd
  have := h d hd
  cases hr : p.run d with
  | mk r d' =>
    rw [hr] at this
    cases r with
    | ok a => exact this
    | error e => exact this

theorem Triple.final {p : Prog Name γ ε α} {R : Disk Name γ → Prop}
    (h : Triple P p (fun _ => R) (fun _ => R)) {d : Disk Name γ} (hd : P d) : R (p.run d).2 := by
  cases hr : (p.run d).1 with
  | ok a => exact h.of_ok hd hr
  | error e => exact h.of_error hd hr

theorem Triple.any {p : Prog Name γ ε α} :
    Triple P p (fun _ _ => True) (fun _ _ => True) := Triple.always fun _ _ => trivial

theorem Triple.weaken {p : Prog Name γ ε α} (h : Triple P p Q E) (hP : ∀ d, P' d → P d)
    (hQ : ∀ a d, Q a d → Q' a d) (hE : ∀ e d, E e d → E' e d) : Triple P' p Q' E' := by
  intro d hd
  have := h d (hP d hd)
  cases hr : p.run d with
  | mk r d' =>
    rw [hr] at this
    cases r with
    | ok a => exact hQ a d' this
    | error e => exact hE e d' this

theorem Triple.each {p : Prog Name γ ε α} (h : ∀ d, P d → Triple (· = d) p Q E) : Triple P p Q E :=
  fun d hd => h d hd d rfl

theorem Triple.and {p : Prog Name γ ε α} (h : Triple P p Q E) (h' : Triple P' p Q' E') :
    Triple (fun d => P d ∧ P' d) p (fun a d => Q a d ∧ Q' a d) (fun e d => E e d ∧ E' e d) := by
  rintro d ⟨hd, hd'⟩
  have hq := h d hd
  have hq' := h' d hd'
  cases hr : p.run d with
  | mk r d' =>
    rw [hr] at hq hq'
    cases r with
    | ok a => exact ⟨hq, hq'⟩
    | error e => exact ⟨hq, hq'⟩

theorem Triple.bind {p : Prog Name γ ε α} {f : α → Prog Name γ ε α'}
    {R : α' → Disk Name γ → Prop} (hp : Triple P p Q E) (hf : ∀ a, Triple (Q a) (f a) R E) :
    Triple P (p.bind f) R E := by
  intro d hd
  have h := hp d hd
  rw [run_bind]
  cases hr : p.run d with
  | mk r d' =>
    rw [hr] at h
    cases r with
    | ok a => exact hf a d' h
    | error e => exact h

theorem Triple.call {c : Call Name γ} {k : c.Reply → Prog Name γ ε α}
    (R : c.Reply → Disk Name γ → Prop) (hc : ∀ d, P d → R (c.exec d).1 (c.exec d).2)
    (hk : ∀ r, Triple (R r) (k r) Q E) : Triple P (.call c k) Q E :=
  fun d hd => hk _ _ (hc d hd)

theorem Triple.handle {p : Prog Name γ ε α} {f : Except ε α → Prog Name γ ε' α'}
    {R : α' → Disk Name γ → Prop} {F : ε' → Disk Name γ → Prop} (hp : Triple P p Q E)
    (hok : ∀ a, Triple (Q a) (f (.ok a)) R F) (herr : ∀ e, Triple (E e) (f (.error e)) R F) :
    Triple P (p.handle f) R F := by
  intro d hd
  have h := hp d hd
  rw [run_handle]
  cases hr : p.run d with
  | mk r d' =>
    rw [hr] at h
    cases r with
    | ok a => exact hok a d' h
    | error e => exact herr e d' h

theorem Triple.mapErr {f : ε → ε'} {p : Prog Name γ ε α} {F : ε' → Disk Name γ → Prop}
    (h : Triple P p Q (fun e => F (f e))) : Triple P (p.mapErr f) Q F :=
  h.handle (fun _ => Triple.ok fun _ h => h) (fun _ => Triple.error fun _ h => h)

theorem Triple.ignore {p : Prog Name γ ε α} {R : Disk Name γ → Prop} {F : ε' → Disk Name γ → Prop}
    (h : Triple P p (fun _ => R) (fun _ => R)) : Triple P p.ignore (fun _ => R) F :=
  h.handle (fun _ => Triple.ok fun _ h => h) (fun _ => Triple.ok fun _ h => h)

/-- The rule for loops: an invariant indexed by the elements done so far. -/
theorem Triple.fold {ι σ : Type} {body : σ → ι → Prog Name γ ε σ} (xs : List ι)
    (I : List ι → σ → Disk Name γ → Prop) (s : σ)
    (h : ∀ ys x zs s, xs = ys ++ x :: zs →
      Triple (I ys s) (body s x) (fun s' => I (ys ++ [x]) s') E) :
    Triple (I [] s) (Prog.fold body s xs) (fun s' => I xs s') E := by
  suffices hs : ∀ zs ys s, xs = ys ++ zs →
      Triple (I ys s) (Prog.fold body s zs) (fun s' => I xs s') E from hs xs [] s rfl
  intro zs
  induction zs with
  | nil =>
    rintro ys s hx d hd
    rw [List.append_nil] at hx
    exact hx ▸ hd
  | cons x zs ih =>
    intro ys s hx
    exact Triple.bind (h ys x zs s hx) (fun s' => ih (ys ++ [x]) s' (by simp [hx]))

theorem Triple.forEach {ι : Type} {body : ι → Prog Name γ ε Unit} (xs : List ι)
    (I : List ι → Disk Name γ → Prop)
    (h : ∀ ys x zs, xs = ys ++ x :: zs → Triple (I ys) (body x) (fun _ => I (ys ++ [x])) E) :
    Triple (I []) (Prog.forEach body xs) (fun _ => I xs) E :=
  Triple.fold xs (fun ys _ => I ys) () (fun ys x zs _ => h ys x zs)

end Run

end UnBoxer.Programs
