import Mathlib.Algebra.Group.Int.Defs
import Mathlib.Algebra.Group.Nat.Defs
import Mathlib.Data.Finset.Card
import Mathlib.Data.Int.Notation
import Mathlib.Data.Nat.Notation
import Multicilk.Support.Tokens

/-!
# The configuration in an environment variable

`cilk_cfg_from_env` copies the characters it knows into a buffer, and takes that
apart with three nested `strtok_r` loops.  Text is a list of characters without
the terminator.  What follows from an undefined call, from a write out of bounds
or from a length that is too large for an `int` is `none`.
-/

namespace Multicilk.Config

open Tokens

/-- A buffer of some size, with what has been written so far. -/
structure Buffer where
  allocated : ℕ
  contents : List Char

def Buffer.write (buffer : Buffer) (c : Char) : Option Buffer :=
  if buffer.contents.length < buffer.allocated then
    some { buffer with contents := buffer.contents ++ [c] }
  else none

/-- `malloc` of a size that is computed as an `int`.  Without memory, every
write that follows is out of bounds. -/
def malloc (size : ℤ) : Option Buffer :=
  -- the sum has overflowed, or the size is huge as an unsigned number
  if 2 ^ 31 ≤ size ∨ size < 0 then none
  else some ⟨size.toNat, []⟩

/-- The result of `strlen`, cut to an `int`. -/
def intLength (text : List Char) : ℤ := (BitVec.ofNat 32 text.length).toInt

/-- What a loop up to that length sees of the text. -/
def readPart (text : List Char) : List Char :=
  text.take (intLength text).toNat

/-- The loops that filter characters.  The terminator is written as well. -/
def copyFiltered (keep : Char → Bool) (change : Char → Char)
    (text : List Char) : Option (List Char) := do
  let buffer ← malloc (intLength text + 1)
  let filtered ← (readPart text).foldlM
    (fun buffer c => if keep c then buffer.write (change c) else some buffer)
    buffer
  let _ ← filtered.write (Char.ofNat 0)
  return filtered.contents

def isDigit (c : Char) : Bool := 48 ≤ c.toNat && c.toNat ≤ 57

def isUpper (c : Char) : Bool := 65 ≤ c.toNat && c.toNat ≤ 90

def isLower (c : Char) : Bool := 97 ≤ c.toNat && c.toNat ≤ 122

/-- The characters that are not filtered out. -/
def isKnown (c : Char) : Bool :=
  isDigit c || isUpper c || isLower c || c.toNat == 61 || c.toNat == 44 ||
    c.toNat == 59

def toLower (c : Char) : Char :=
  if isUpper c then Char.ofNat (c.toNat + (97 - 65)) else c

/-- `strtok_r` with one delimiter.  A string or a save pointer that is `none` is
`NULL`.  The results are the token and the save pointer. -/
def strtokR (str : Option (List Char)) (delimiter : Char)
    (saved : Option (List Char)) :
    Option (Option (List Char) × Option (List Char)) :=
  match str.or saved with
  | none => none
  | some text =>
    match nextToken delimiter text with
    | none => some (none, some [])
    | some (token, rest) => some (some token, some rest)

/-- `atoi` of a text without blanks and signs: `strtol` saturates, and the
result is cut to 32 bits. -/
def atoi (text : List Char) : ℤ :=
  (min (Nat.ofDigitChars 10 (text.takeWhile isDigit) 0 : ℤ)
    (2 ^ 63 - 1)).bmod (2 ^ 32)

/-- `CPU_SETSIZE`. -/
def cpuSetSize : ℕ := 1024

/-- `CPU_SET` ignores a number that is out of range. -/
def cpuSet (cpu : ℤ) (mask : Finset ℕ) : Finset ℕ :=
  if 0 ≤ cpu ∧ cpu < cpuSetSize then insert cpu.toNat mask else mask

structure CilkConfig where
  nWorkers : ℤ
  bossAffinity : Finset ℕ
deriving DecidableEq

/-- The loop over the CPU numbers, from the token on that has been found. -/
def cpuLoop : ℕ → Option (List Char) → Option (List Char) → Finset ℕ →
    Option (Finset ℕ)
  | _, none, _, mask => some mask
  | 0, some _, _, _ => none
  | fuel + 1, some cpuStr, ptr2, mask => do
      let (next, ptr2) ← strtokR none ',' ptr2
      cpuLoop fuel next ptr2 (cpuSet (atoi cpuStr) mask)

def nworkersKey : List Char := "nworkers".toList

def cpusetKey : List Char := "cpuset".toList

/-- The branch for `nworkers`.  A token is never empty. -/
def parseNworkers (data : List Char) (cfg : CilkConfig) : Option CilkConfig :=
  if intLength data = 0 then some cfg
  else do
    let buffer ← copyFiltered isDigit id data
    return { cfg with nWorkers := atoi buffer }

/-- The branch for `cpuset`.  The clean copy is made, but not read. -/
def parseCpuset (data : List Char) (cfg : CilkConfig) : Option CilkConfig := do
  let _ ← copyFiltered isDigit id data
  let (cpuStr, ptr2) ← strtokR (some data) ',' none
  let mask ← cpuLoop (data.length + 1) cpuStr ptr2 ∅
  return { cfg with bossAffinity := mask }

/-- The body of the loop over the fields. -/
def parseField (token : Option (List Char)) (cfg : CilkConfig) :
    Option CilkConfig := do
  let (name, ptr1) ← strtokR token '=' none
  match name with
  | none => return cfg
  | some name =>
    let (data, _) ← strtokR none '=' ptr1
    match data with
    | none => return cfg
    | some data =>
      let cfg ← if name = nworkersKey then parseNworkers data cfg else some cfg
      if name = cpusetKey then parseCpuset data cfg else some cfg

/-- The loop over the fields, with the tokens for which its body is run. -/
def fieldLoop : ℕ → Option (List Char) → Option (List Char) → CilkConfig →
    Option (CilkConfig × List (Option (List Char)))
  | 0, _, _, _ => none
  | fuel + 1, token, ptr, cfg => do
      let cfg ← parseField token cfg
      let (next, ptr) ← strtokR none ';' ptr
      if next.isSome then
        let (cfg, visited) ← fieldLoop fuel next ptr cfg
        return (cfg, token :: visited)
      else return (cfg, [token])

/-- The variable has this value. -/
def parseValue (value : List Char) :
    Option (CilkConfig × List (Option (List Char))) := do
  let valueFiltered ← copyFiltered isKnown toLower value
  let (token, ptr) ← strtokR (some valueFiltered) ';' none
  fieldLoop (valueFiltered.length + 1) token ptr ⟨0, ∅⟩

/-- A variable that is not defined stands for the affinity of the thread. -/
def cilkCfgFromEnv (value : Option (List Char)) (mask : Finset ℕ) :
    Option CilkConfig :=
  match value with
  | none => some ⟨mask.card, mask⟩
  | some value => (parseValue value).map Prod.fst

end Multicilk.Config
