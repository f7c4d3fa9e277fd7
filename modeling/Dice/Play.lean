import Dice.Source.Basic

/-! Plays: dice thrown one after another, each perhaps depending on the faces before
it, until there is a result or a reason to give up. A play is a tree with one branch
for every face; nothing in it knows where faces come from. Carrying it out on a
source walks down one path of the tree. -/

namespace Dice

/-- `throwDie sides next` asks for one face and goes on with the branch of that face. -/
inductive Play (ε α : Type) where
  | done (result : α)
  | fail (cause : ε)
  | throwDie (sides : Int) (next : (face : Int) → Play ε α)

namespace Play

variable {ε ε' α β σ : Type}

protected def bind : Play ε α → (α → Play ε β) → Play ε β
  | done result, k => k result
  | fail cause, _ => .fail cause
  | throwDie sides next, k => .throwDie sides fun face => (next face).bind k

protected def map (f : α → β) : Play ε α → Play ε β
  | done result => .done (f result)
  | fail cause => .fail cause
  | throwDie sides next => .throwDie sides fun face => (next face).map f

instance : Monad (Play ε) where
  pure := done
  bind := Play.bind
  map := Play.map

/-- The same throws, with failures told in other words. -/
def mapError (f : ε → ε') : Play ε α → Play ε' α
  | done result => .done result
  | fail cause => .fail (f cause)
  | throwDie sides next => .throwDie sides fun face => (next face).mapError f

def ofExcept : Except ε α → Play ε α
  | .ok result => .done result
  | .error cause => .fail cause

/-- One die. -/
def die (sides : Int) : Play ε Int := .throwDie sides .done

/-- Carries the play out: what comes of it, and the source after the last throw. -/
def run [Source σ] : Play ε α → σ → Except ε α × σ
  | done result, s => (.ok result, s)
  | fail cause, s => (.error cause, s)
  | throwDie sides next, s =>
    let (face, s) := Source.throwDie sides s
    (next face).run s

@[simp] theorem pure_eq (a : α) : (pure a : Play ε α) = .done a := rfl

@[simp] theorem done_bind (a : α) (k : α → Play ε β) : (.done a : Play ε α) >>= k = k a := rfl

@[simp] theorem fail_bind (cause : ε) (k : α → Play ε β) :
    (.fail cause : Play ε α) >>= k = .fail cause := rfl

@[simp] theorem throwDie_bind (sides : Int) (next : Int → Play ε α) (k : α → Play ε β) :
    (.throwDie sides next : Play ε α) >>= k = .throwDie sides fun face => next face >>= k := rfl

private theorem bind_done (p : Play ε α) (f : α → β) :
    (p.bind fun a => .done (f a)) = p.map f := by
  induction p with
  | done _ => rfl
  | fail _ => rfl
  | throwDie sides next ih => simp [Play.map, Play.bind, ih]

private theorem map_id (p : Play ε α) : p.map id = p := by
  induction p with
  | done _ => rfl
  | fail _ => rfl
  | throwDie sides next ih => simp [Play.map, ih]

private theorem bind_bind {γ : Type} (p : Play ε α) (k : α → Play ε β) (l : β → Play ε γ) :
    (p.bind k).bind l = p.bind fun a => (k a).bind l := by
  induction p with
  | done _ => rfl
  | fail _ => rfl
  | throwDie sides next ih => simp [Play.bind, ih]

instance : LawfulMonad (Play ε) := LawfulMonad.mk' (Play ε)
  map_id (fun _ _ => rfl) bind_bind (fun _ _ => rfl) (fun _ _ => rfl) (fun _ _ => rfl)
  (fun f p => bind_done p f) (fun _ _ => rfl)

/-- One play after another: the second begins where the first has left the source. -/
theorem run_bind [Source σ] (p : Play ε α) (k : α → Play ε β) (s : σ) :
    (p >>= k).run s = match p.run s with
      | (.ok a, s) => (k a).run s
      | (.error cause, s) => (.error cause, s) := by
  induction p generalizing s with
  | done _ => rfl
  | fail _ => rfl
  | throwDie sides next ih => simp [run, ih]

/-- Other words for a failure change nothing else. -/
theorem run_mapError [Source σ] (f : ε → ε') (p : Play ε α) (s : σ) :
    (p.mapError f).run s = ((p.run s).1.mapError f, (p.run s).2) := by
  induction p generalizing s with
  | done _ => rfl
  | fail _ => rfl
  | throwDie sides next ih => simp [mapError, run, ih]

@[simp] theorem run_ofExcept [Source σ] (result : Except ε α) (s : σ) :
    (ofExcept result).run s = (result, s) := by
  cases result <;> rfl

end Play

end Dice
