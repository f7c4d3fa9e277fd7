import Dice.Roll

/-! Exploding pools. A die that shows at least the explosion threshold is followed by
one more, which may explode in turn. The dice of a pool stand in the order in which
they were thrown, each marked by whether an explosion called for it. -/

namespace Dice

namespace Pool

/-- What the faces of a pool mean. -/
structure Rule where
  /-- The least face that is a hit. -/
  passOn : Int
  /-- The least face that explodes. -/
  explodeOn : Int
deriving Repr, DecidableEq

structure Die where
  face : Int
  /-- Thrown because the die before it exploded. -/
  extra : Bool
deriving Repr, DecidableEq

def Die.text (die : Die) : String :=
  if die.extra then "(" ++ toString die.face ++ ")" else toString die.face

end Pool

/-- Dice on the table, and the rule under which they were thrown. -/
structure Pool where
  rule : Pool.Rule
  dice : List Pool.Die
deriving Repr, DecidableEq

namespace Pool

def hits (pool : Pool) : Nat := pool.dice.countP fun die => pool.rule.passOn ≤ die.face

def ones (pool : Pool) : Nat := pool.dice.countP fun die => die.face = 1

def text (pool : Pool) : String := String.intercalate " " (pool.dice.map Die.text)

/-- The number of dice that a pool starts with, when it may be thrown. -/
def allow (limit : Nat) (count sides : Int) (rule : Rule) : Except Refusal Nat := do
  allowSides sides
  let count ← allowCount limit count
  if rule.explodeOn < 2 then .error (.endlessExplosion rule.explodeOn) else .ok count

/-- Dice already thrown, in reverse, and how many more explosions may follow. -/
structure Table where
  thrown : List Die
  room : Nat
deriving Repr, DecidableEq

/-- Lays a die on the table. -/
def Table.add (table : Table) (die : Die) : Table := ⟨die :: table.thrown, table.room - 1⟩

/-- Follows the explosions of the last die, which shows `face`. -/
def explode (limit : Nat) (sides : Int) (rule : Rule) :
    (room : Nat) → (face : Int) → (thrown : List Die) → Play Refusal Table
  | room, face, thrown =>
    if face < rule.explodeOn then .done ⟨thrown, room⟩
    else match room with
      | 0 => .fail (.tooManyExplosions limit)
      | room + 1 => .throwDie sides fun next =>
        explode limit sides rule room next (⟨next, true⟩ :: thrown)

/-- Throws `count` more dice, each with its explosions. -/
def throwDice (limit : Nat) (sides : Int) (rule : Rule) :
    (count : Nat) → Table → Play Refusal Table
  | 0, table => .done table
  | count + 1, table => .throwDie sides fun face => do
    let laid := table.add ⟨face, false⟩
    let table ← explode limit sides rule laid.room face laid.thrown
    throwDice limit sides rule count table

/-- Throws a pool of `count` dice; the limit counts explosions as well. -/
def throw (limit : Nat) (count sides : Int) (rule : Rule) : Play Refusal Pool := do
  let count ← Play.ofExcept (allow limit count sides rule)
  let table ← throwDice limit sides rule count ⟨[], limit⟩
  return ⟨rule, table.thrown.reverse⟩

end Pool

end Dice
