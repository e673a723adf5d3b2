import Mathlib.Data.List.Basic
import Multicilk.Config.Parser

/-!
# What the parser computes

The nested loops visit the tokens of the filtered text, and the last entry for a
key counts.  The first field is taken apart even where there is none.  The text
is read as far as the `int` says that its length is cut to.
-/

namespace Multicilk.Config

open Tokens

section Specification

/-- The size of the buffer is an `int` without an overflow. -/
def Fits (text : List Char) : Prop :=
  0 ≤ intLength text ∧ intLength text + 1 < 2 ^ 31

instance : DecidablePred Fits := fun text =>
  inferInstanceAs
    (Decidable (0 ≤ intLength text ∧ intLength text + 1 < 2 ^ 31))

/-- The text that is left of a value. -/
def filtered (value : List Char) : List Char :=
  (value.filter isKnown).map toLower

def fields (value : List Char) : List (List Char) := tokens ';' (filtered value)

/-- The key of a field with its data. -/
def entry (field : List Char) : Option (List Char × List Char) :=
  match tokens '=' field with
  | name :: data :: _ => some (name, data)
  | _ => none

/-- The CPUs that some texts denote. -/
def cpus (texts : List (List Char)) : Finset ℕ :=
  texts.foldl (fun mask text => cpuSet (atoi text) mask) ∅

def applyEntry (cfg : CilkConfig) : List Char × List Char → CilkConfig
  | (name, data) =>
    if name = nworkersKey then
      { cfg with nWorkers := atoi (data.filter isDigit) }
    else if name = cpusetKey then
      { cfg with bossAffinity := cpus (tokens ',' data) }
    else cfg

def configOf (fields : List (List Char)) : CilkConfig :=
  (fields.filterMap entry).foldl applyEntry ⟨0, ∅⟩

end Specification

section Loops

variable {keep : Char → Bool} {change : Char → Char} {text : List Char}
  {delimiter : Char} {buffer : Buffer}

theorem write_of_room {c : Char}
    (room : buffer.contents.length < buffer.allocated) : buffer.write c =
      some { buffer with contents := buffer.contents ++ [c] } :=
  if_pos room

theorem foldlM_write (room : buffer.contents.length + text.length ≤
      buffer.allocated) :
    text.foldlM
        (fun buffer c => if keep c then buffer.write (change c) else some buffer)
        buffer =
      some { buffer with
        contents := buffer.contents ++ (text.filter keep).map change } := by
  induction text generalizing buffer with
  | nil => simp
  | cons c text ih =>
      rw [List.length_cons] at room
      rw [List.foldlM_cons]
      by_cases kept : keep c = true
      · rw [if_pos kept, write_of_room (by omega)]
        refine (ih ?_).trans ?_
        · simp
          omega
        · simp [kept]
      · rw [if_neg kept]
        refine (ih (by omega)).trans ?_
        simp [kept]

theorem intLength_bounds :
    -2 ^ 31 ≤ intLength text ∧ intLength text < 2 ^ 31 := by
  rw [intLength]
  exact ⟨BitVec.le_toInt _, BitVec.toInt_lt⟩

theorem length_readPart (fits : Fits text) :
    ((readPart text).length : ℤ) ≤ intLength text := by
  have taken := List.length_take_le (intLength text).toNat text
  have nonneg := fits.1
  rw [readPart]
  omega

/-- A length that is too large gives no buffer, or one without room for the
terminator. -/
theorem copyFiltered_of_not_fits (notFits : ¬ Fits text) :
    copyFiltered keep change text = none := by
  have bounds := @intLength_bounds text
  rw [Fits] at notFits
  rw [copyFiltered]
  by_cases allocated : 2 ^ 31 ≤ intLength text + 1 ∨ intLength text + 1 < 0
  · rw [malloc, if_pos allocated]
    rfl
  · have isMinusOne : intLength text = -1 := by omega
    rw [readPart, isMinusOne]
    rfl

/-- The buffers are large enough. -/
theorem copyFiltered_of_fits (fits : Fits text) : copyFiltered keep change text =
    some (((readPart text).filter keep).map change) := by
  obtain ⟨size, isSize⟩ : ∃ size, size = (intLength text + 1).toNat :=
    ⟨_, rfl⟩
  have allocated : malloc (intLength text + 1) = some ⟨size, []⟩ := by
    have nonneg := fits.1
    have small := fits.2
    rw [malloc, if_neg (by omega), isSize]
  have room : (readPart text).length < size := by
    have nonneg := fits.1
    have read := length_readPart fits
    omega
  have short := List.length_filter_le keep (readPart text)
  have written := @foldlM_write keep change (readPart text) ⟨size, []⟩
    (by simp; omega)
  have terminated : (⟨size, ((readPart text).filter keep).map change⟩ :
      Buffer).write (Char.ofNat 0) = some ⟨size,
        ((readPart text).filter keep).map change ++ [Char.ofNat 0]⟩ := by
    apply write_of_room
    simp
    omega
  rw [copyFiltered, allocated, Option.bind_eq_bind, Option.bind_some, written]
  simp [terminated]

theorem intLength_of_short (short : text.length + 1 < 2 ^ 31) :
    intLength text = text.length := by
  rw [intLength, BitVec.toInt_ofNat', Int.bmod_eq_of_le] <;> omega

theorem fits_of_short (short : text.length + 1 < 2 ^ 31) : Fits text := by
  rw [Fits, intLength_of_short short]
  omega

theorem readPart_of_short (short : text.length + 1 < 2 ^ 31) :
    readPart text = text := by
  rw [readPart, intLength_of_short short, Int.toNat_natCast, List.take_length]

theorem copyFiltered_of_short (short : text.length + 1 < 2 ^ 31) :
    copyFiltered keep change text = some ((text.filter keep).map change) := by
  rw [copyFiltered_of_fits (fits_of_short short), readPart_of_short short]

/-- A call of `strtok_r` goes to the next token. -/
theorem strtokR_spec {str saved : Option (List Char)}
    (found : str.or saved = some text) :
    (tokens delimiter text = [] ∧
        strtokR str delimiter saved = some (none, some [])) ∨
      ∃ token rest, tokens delimiter text = token :: tokens delimiter rest ∧
        rest.length < text.length ∧
        strtokR str delimiter saved = some (some token, some rest) := by
  have spec := @nextToken_spec _ _ delimiter text
  cases split : nextToken delimiter text with
  | none =>
      rw [split] at spec
      exact .inl ⟨spec, by simp [strtokR, found, split]⟩
  | some step =>
      obtain ⟨token, rest⟩ := step
      rw [split] at spec
      exact .inr ⟨token, rest, spec.1, spec.2, by simp [strtokR, found, split]⟩

theorem cpuLoop_eq {fuel : ℕ} {token : Option (List Char)} {mask : Finset ℕ}
    (enough : text.length < fuel) :
    cpuLoop fuel token (some text) mask = some (match token with
      | none => mask
      | some cpuStr => (cpuStr :: tokens ',' text).foldl
          (fun mask text => cpuSet (atoi text) mask) mask) := by
  induction fuel generalizing token text mask with
  | zero => omega
  | succ fuel ih =>
      cases token with
      | none => rfl
      | some cpuStr =>
          rw [cpuLoop]
          rcases @strtokR_spec text ',' none (some text) rfl with
            ⟨none, stopped⟩ | ⟨token, rest, first, shorter, found⟩
          · rw [stopped]
            simp only [Option.bind_eq_bind, Option.bind_some, none]
            cases fuel <;> rfl
          · rw [found]
            simp only [Option.bind_eq_bind, Option.bind_some]
            rw [ih (by omega), first]
            rfl

theorem parseNworkers_eq {data : List Char} {cfg : CilkConfig}
    (short : data.length + 1 < 2 ^ 31) (notEmpty : data ≠ []) :
    parseNworkers data cfg =
      some { cfg with nWorkers := atoi (data.filter isDigit) } := by
  have counted : intLength data ≠ 0 := by
    rw [intLength_of_short short]
    simpa using notEmpty
  rw [parseNworkers, if_neg counted, copyFiltered_of_short short]
  simp

theorem parseCpuset_eq {data : List Char} {cfg : CilkConfig}
    (short : data.length + 1 < 2 ^ 31) : parseCpuset data cfg =
      some { cfg with bossAffinity := cpus (tokens ',' data) } := by
  rw [parseCpuset, copyFiltered_of_short short]
  rcases @strtokR_spec data ',' (some data) none rfl with
    ⟨none, stopped⟩ | ⟨token, rest, first, shorter, found⟩
  · simp [stopped, none, cpuLoop, cpus]
  · simp only [Option.bind_eq_bind, Option.bind_some, found]
    rw [cpuLoop_eq (by omega), first]
    rfl

theorem parseField_eq {field : List Char} {cfg : CilkConfig}
    (short : field.length + 1 < 2 ^ 31) : parseField (some field) cfg =
      some ((entry field).elim cfg (applyEntry cfg)) := by
  rw [parseField]
  rcases @strtokR_spec field '=' (some field) none rfl with
    ⟨none, stopped⟩ | ⟨name, rest, first, shorter, found⟩
  · simp [stopped, entry, none]
  · simp only [Option.bind_eq_bind, Option.bind_some, found]
    rcases @strtokR_spec rest '=' none (some rest) rfl with
      ⟨none, stopped⟩ | ⟨data, after, second, -, alsoFound⟩
    · simp [stopped, entry, first, none]
    · have isData : data ∈ tokens '=' rest := second ▸ List.mem_cons_self
      have notEmpty := ne_nil_of_mem_tokens isData
      have dataShort : data.length + 1 < 2 ^ 31 := by
        have fromRest := length_le_of_mem_tokens isData
        omega
      simp only [alsoFound, Option.bind_some, entry, first, second,
        Option.elim_some, applyEntry]
      by_cases isNworkers : name = nworkersKey
      · have notCpuset : name ≠ cpusetKey := by
          rw [isNworkers]
          decide
        rw [if_pos isNworkers, if_pos isNworkers,
          parseNworkers_eq dataShort notEmpty]
        simp [notCpuset]
      · rw [if_neg isNworkers, if_neg isNworkers]
        by_cases isCpuset : name = cpusetKey
        · simp [isCpuset, parseCpuset_eq dataShort]
        · simp [isCpuset]

end Loops

section Fields

variable {value text field : List Char} {rest : List (List Char)}
  {cfg : CilkConfig}

/-- The loop visits the tokens one by one. -/
theorem fieldLoop_eq {fuel : ℕ} (fieldShort : field.length + 1 < 2 ^ 31)
    (textShort : text.length + 1 < 2 ^ 31) (enough : text.length < fuel) :
    fieldLoop fuel (some field) (some text) cfg =
      some (((field :: tokens ';' text).filterMap entry).foldl applyEntry cfg,
        (field :: tokens ';' text).map some) := by
  induction fuel generalizing text field cfg with
  | zero => omega
  | succ fuel ih =>
      have parsed : parseField (some field) cfg = some
          (([field].filterMap entry).foldl applyEntry cfg) := by
        rw [parseField_eq fieldShort]
        cases isEntry : entry field with
        | none => simp [isEntry]
        | some found => simp [isEntry]
      rw [fieldLoop, parsed]
      rcases @strtokR_spec text ';' none (some text) rfl with
        ⟨none, stopped⟩ | ⟨token, rest, first, shorter, found⟩
      · simp [stopped, none]
      · have tokenShort : token.length + 1 < 2 ^ 31 := by
          have fromText := length_le_of_mem_tokens
            (first ▸ List.mem_cons_self : token ∈ tokens ';' text)
          omega
        simp only [Option.bind_eq_bind, Option.bind_some, found,
          Option.isSome_some, if_true]
        rw [ih tokenShort (by omega) (by omega), first]
        simp only [Option.bind_some, Option.pure_def, List.map_cons]
        rw [← List.foldl_append, ← List.filterMap_append, List.singleton_append]

theorem length_filtered : (filtered text).length ≤ text.length := by
  rw [filtered, List.length_map]
  exact List.length_filter_le _ _

/-- Without a field, the first call on the second level has nothing to go
on. -/
theorem parseValue_eq : parseValue value =
    if Fits value ∧ fields (readPart value) ≠ [] then
      some (configOf (fields (readPart value)),
        (fields (readPart value)).map some)
    else none := by
  rw [parseValue]
  by_cases fits : Fits value
  · have copied : copyFiltered isKnown toLower value =
        some (filtered (readPart value)) := copyFiltered_of_fits fits
    have short : (filtered (readPart value)).length + 1 < 2 ^ 31 := by
      have small := fits.2
      have fromValue := length_readPart fits
      have fromPart := @length_filtered (readPart value)
      omega
    rw [copied]
    rcases @strtokR_spec (filtered (readPart value)) ';'
        (some (filtered (readPart value))) none rfl with
      ⟨none, stopped⟩ | ⟨token, rest, first, shorter, found⟩
    · rw [fields, if_neg (fun filled => filled.2 none)]
      simp only [Option.bind_eq_bind, Option.bind_some, stopped]
      rfl
    · have tokenShort := length_le_of_mem_tokens
        (first ▸ List.mem_cons_self : token ∈ tokens ';' _)
      rw [fields, first, if_pos ⟨fits, List.cons_ne_nil _ _⟩, configOf]
      simp only [Option.bind_eq_bind, Option.bind_some, found]
      exact fieldLoop_eq (by omega) (by omega) (by omega)
  · rw [copyFiltered_of_not_fits fits, if_neg (fun filled => fits filled.1)]
    rfl

theorem parseValue_of_short (short : value.length + 1 < 2 ^ 31) :
    parseValue value =
      if fields value = [] then none
      else some (configOf (fields value), (fields value).map some) := by
  rw [parseValue_eq, readPart_of_short short]
  by_cases none : fields value = []
  · rw [if_pos none, if_neg (fun filled => filled.2 none)]
  · rw [if_neg none, if_pos ⟨fits_of_short short, none⟩]

/-- A change of case makes letters of letters. -/
theorem isLower_toLower {c : Char} (upper : isUpper c = true) :
    isLower (toLower c) = true := by
  have letters : ∀ code < 91, 65 ≤ code →
      isLower (Char.ofNat (code + (97 - 65))) = true := by
    decide
  have bounds : 65 ≤ c.toNat ∧ c.toNat ≤ 90 := by
    simpa [isUpper] using upper
  rw [toLower, if_pos upper]
  exact letters c.toNat (by omega) bounds.1

theorem toLower_eq_separator {c : Char} (same : toLower c = ';') : c = ';' := by
  by_cases upper : isUpper c = true
  · have letter := isLower_toLower upper
    rw [same] at letter
    exact absurd letter (by decide)
  · rwa [toLower, if_neg upper] at same

theorem fields_eq_nil_iff :
    fields value = [] ↔ ∀ c ∈ value, isKnown c = true → c = ';' := by
  rw [fields, tokens_eq_nil_iff]
  constructor
  · intro separators c member known
    apply toLower_eq_separator
    apply separators
    exact List.mem_map_of_mem (List.mem_filter.mpr ⟨member, known⟩)
  · intro separators c member
    obtain ⟨d, kept, rfl⟩ := List.mem_map.mp member
    obtain ⟨inValue, known⟩ := List.mem_filter.mp kept
    rw [separators d inValue known]
    decide

theorem fields_readPart_eq_iff : fields (readPart value) = fields value ↔
    ∀ c ∈ value.drop (intLength value).toNat, isKnown c = true → c = ';' := by
  have parts : filtered value = filtered (readPart value) ++
      filtered (value.drop (intLength value).toNat) := by
    rw [filtered, filtered, filtered, ← List.map_append, ← List.filter_append,
      readPart, List.take_append_drop]
  rw [← fields_eq_nil_iff, fields, fields, fields, parts, eq_comm,
    tokens_append_eq_iff, tokens_eq_nil_iff]

/-- The parser returns a configuration, after it has visited every field
once, and nothing on the way is undefined. -/
def Total (value : List Char) : Prop :=
  ∃ cfg, parseValue value = some (cfg, (fields value).map some)

/-- There has to be a field, and there has to be none behind the part that is
read. -/
theorem total_iff (value : List Char) :
    Total value ↔
      (0 ≤ intLength value ∧ intLength value + 1 < 2 ^ 31) ∧
      (∃ c ∈ value.take (intLength value).toNat,
        isKnown c = true ∧ c ≠ ';') ∧
      ∀ c ∈ value.drop (intLength value).toNat,
        isKnown c = true → c = ';' := by
  have filled : fields (readPart value) ≠ [] ↔
      ∃ c ∈ value.take (intLength value).toNat, isKnown c = true ∧ c ≠ ';' := by
    rw [ne_eq, fields_eq_nil_iff, readPart]
    push Not
    rfl
  rw [← filled, ← fields_readPart_eq_iff, Total, parseValue_eq]
  by_cases parsed : Fits value ∧ fields (readPart value) ≠ []
  · rw [if_pos parsed]
    constructor
    · rintro ⟨cfg, result⟩
      rw [Option.some.injEq, Prod.mk.injEq] at result
      exact ⟨parsed.1, parsed.2, (Option.some_injective _).list_map result.2⟩
    · rintro ⟨-, -, same⟩
      exact ⟨_, by rw [same]⟩
  · rw [if_neg parsed]
    refine iff_of_false (by simp) ?_
    rintro ⟨fits, some, -⟩
    exact parsed ⟨fits, some⟩

theorem empty_value_undefined : ¬ ∀ value : List Char, Total value := by
  intro total
  obtain ⟨cfg, parsed⟩ := total []
  have undefined : parseValue [] = none := by decide
  rw [undefined] at parsed
  cases parsed

end Fields

end Multicilk.Config
