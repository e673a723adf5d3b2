import Mathlib.Data.Finset.Dedup
import Mathlib.Data.List.TakeWhile
import Multicilk.Config.Tokenising

/-!
# Reading what has been written

A number of workers and a list of CPUs can be written in many ways, which are
all read alike.
-/

namespace Multicilk.Config

open Tokens

section Written

/-- The number in decimal notation. -/
abbrev decimal (n : ℕ) : List Char := Nat.toDigits 10 n

def nworkersField (n : ℕ) : List Char := nworkersKey ++ '=' :: decimal n

def cpusetField (cpuList : List ℕ) : List Char :=
  cpusetKey ++ '=' :: List.intercalate [','] (cpuList.map decimal)

/-- A text with unknown characters and capital letters strewn in. -/
inductive Strewn : List Char → List Char → Prop where
  | nil : Strewn [] []
  | same {c : Char} {plain text : List Char} :
      Strewn plain text → Strewn (c :: plain) (c :: text)
  | capital {c : Char} {plain text : List Char} :
      isUpper c = true → Strewn plain text →
      Strewn (toLower c :: plain) (c :: text)
  | unknown {c : Char} {plain text : List Char} :
      isKnown c = false → Strewn plain text → Strewn plain (c :: text)

/-- The fields come in this order, with any number of empty ones. -/
def Written (wanted : List (List Char)) (value : List Char) : Prop :=
  ∃ written : List (List Char),
    (written.filter fun field => !field.isEmpty) = wanted ∧
      Strewn (List.intercalate [';'] written) value

end Written

section Characters

variable {plain value text : List Char} {c : Char} {n : ℕ}

/-- A character that the filter leaves as it is. -/
def Plain (c : Char) : Prop := isKnown c = true ∧ isUpper c = false

instance : DecidablePred Plain := fun c =>
  inferInstanceAs (Decidable (isKnown c = true ∧ isUpper c = false))

theorem filtered_of_strewn (strewn : Strewn plain value)
    (all : ∀ c ∈ plain, Plain c) : filtered value = plain := by
  induction strewn with
  | nil => rfl
  | same strewn ih =>
      rw [List.forall_mem_cons] at all
      obtain ⟨⟨known, notUpper⟩, rest⟩ := all
      have ih := ih rest
      simp only [filtered] at ih ⊢
      rw [List.filter_cons_of_pos known, List.map_cons, ih, toLower,
        if_neg (by simp [notUpper])]
  | capital upper strewn ih =>
      rw [List.forall_mem_cons] at all
      have ih := ih all.2
      simp only [filtered] at ih ⊢
      rw [List.filter_cons_of_pos (by simp [isKnown, upper]), List.map_cons, ih]
  | unknown notKnown strewn ih =>
      have ih := ih all
      simp only [filtered] at ih ⊢
      rw [List.filter_cons_of_neg (by simp [notKnown]), ih]

theorem isDigit_of_mem_decimal (member : c ∈ decimal n) : isDigit c = true := by
  have digit := Nat.isDigit_of_mem_toDigits (by decide) (by decide) member
  simpa [isDigit, Char.isDigit, UInt32.le_iff_toNat_le] using digit

theorem plain_of_isDigit (digit : isDigit c = true) : Plain c := by
  have bounds : 48 ≤ c.toNat ∧ c.toNat ≤ 57 := by simpa [isDigit] using digit
  refine ⟨by simp [isKnown, digit], ?_⟩
  simp [isUpper]
  omega

theorem ne_of_isDigit {separator : Char} (digit : isDigit c = true)
    (other : isDigit separator = false) : c ≠ separator := by
  rintro rfl
  rw [digit] at other
  cases other

/-- The numbers and the keys contain no separator. -/
theorem notMem_decimal {separator : Char}
    (other : isDigit separator = false) : separator ∉ decimal n := by
  intro member
  exact ne_of_isDigit (isDigit_of_mem_decimal member) other rfl

theorem decimal_ne_nil : decimal n ≠ [] := Nat.toDigits_ne_nil

theorem plain_of_mem_key (member : c ∈ nworkersKey ∨ c ∈ cpusetKey) :
    Plain c := by
  have all : (nworkersKey ++ cpusetKey).all
      (fun c => isKnown c && !isUpper c) = true := by
    decide
  have plain := List.all_eq_true.mp all c (List.mem_append.mpr member)
  simpa [Plain] using plain

end Characters

section Lists

variable {separator c : Char} {words : List (List Char)}

theorem of_mem_intercalate (member : c ∈ List.intercalate [separator] words) :
    c = separator ∨ ∃ word ∈ words, c ∈ word := by
  induction words with
  | nil => cases member
  | cons word words ih =>
      by_cases last : words = []
      · subst words
        rw [List.intercalate_singleton] at member
        exact .inr ⟨word, List.mem_cons_self, member⟩
      · rw [List.intercalate_cons_of_ne_nil last, List.mem_append,
          List.mem_append, List.mem_singleton] at member
        rcases member with (inWord | isSeparator) | later
        · exact .inr ⟨word, List.mem_cons_self, inWord⟩
        · exact .inl isSeparator
        · rcases ih later with isSeparator | ⟨other, known, inOther⟩
          · exact .inl isSeparator
          · exact .inr ⟨other, List.mem_cons_of_mem _ known, inOther⟩

theorem intercalate_ne_nil {word : List Char} (notEmpty : word ≠ []) :
    List.intercalate [separator] (word :: words) ≠ [] := by
  cases words with
  | nil => simpa using notEmpty
  | cons next words => simp [notEmpty]

end Lists

section Fields

variable {n : ℕ} {cpuList : List ℕ} {wanted : List (List Char)}
  {value : List Char} {c : Char}

theorem entry_of_parts {name data : List Char} (nameFree : '=' ∉ name)
    (named : name ≠ []) (dataFree : '=' ∉ data) :
    entry (name ++ '=' :: data) =
      if data = [] then none else some (name, data) := by
  rw [entry, tokens_append_cons, tokens_word nameFree named]
  by_cases empty : data = []
  · rw [if_pos empty, empty]
    rfl
  · rw [if_neg empty, tokens_word dataFree empty]
    rfl

theorem entry_nworkersField :
    entry (nworkersField n) = some (nworkersKey, decimal n) := by
  rw [nworkersField, entry_of_parts (by decide) (by decide)
    (notMem_decimal (by decide)), if_neg decimal_ne_nil]

theorem of_mem_cpus (member : c ∈ List.intercalate [',']
    (cpuList.map decimal)) : c = ',' ∨ isDigit c = true := by
  rcases of_mem_intercalate member with comma | ⟨word, known, inWord⟩
  · exact .inl comma
  · obtain ⟨cpu, -, rfl⟩ := List.mem_map.mp known
    exact .inr (isDigit_of_mem_decimal inWord)

theorem entry_cpusetField : entry (cpusetField cpuList) =
    if cpuList = [] then none
    else some (cpusetKey, List.intercalate [','] (cpuList.map decimal)) := by
  have free : '=' ∉ List.intercalate [','] (cpuList.map decimal) := by
    intro member
    have shape := of_mem_cpus member
    revert shape
    decide
  rw [cpusetField, entry_of_parts (by decide) (by decide) free]
  cases cpuList with
  | nil => rfl
  | cons cpu cpuList =>
      rw [List.map_cons, if_neg (intercalate_ne_nil decimal_ne_nil),
        if_neg (List.cons_ne_nil _ _)]

theorem plain_of_mem_nworkersField (member : c ∈ nworkersField n) :
    Plain c ∧ c ≠ ';' := by
  rw [nworkersField, List.mem_append, List.mem_cons] at member
  rcases member with inKey | rfl | inNumber
  · refine ⟨plain_of_mem_key (.inl inKey), ?_⟩
    rintro rfl
    exact absurd inKey (by decide)
  · decide
  · have digit := isDigit_of_mem_decimal inNumber
    exact ⟨plain_of_isDigit digit, ne_of_isDigit digit (by decide)⟩

theorem plain_of_mem_cpusetField (member : c ∈ cpusetField cpuList) :
    Plain c ∧ c ≠ ';' := by
  rw [cpusetField, List.mem_append, List.mem_cons] at member
  rcases member with inKey | rfl | inNumbers
  · refine ⟨plain_of_mem_key (.inr inKey), ?_⟩
    rintro rfl
    exact absurd inKey (by decide)
  · decide
  · rcases of_mem_cpus inNumbers with rfl | digit
    · decide
    · exact ⟨plain_of_isDigit digit, ne_of_isDigit digit (by decide)⟩

/-- The fields are found again, whatever has been strewn in. -/
theorem fields_of_written (written : Written wanted value)
    (plain : ∀ field ∈ wanted, ∀ c ∈ field, Plain c ∧ c ≠ ';') :
    fields value = wanted := by
  obtain ⟨written, nonempty, strewn⟩ := written
  have allPlain : ∀ field ∈ written, ∀ c ∈ field, Plain c ∧ c ≠ ';' := by
    intro field member c inField
    apply plain field _ c inField
    rw [← nonempty, List.mem_filter]
    refine ⟨member, ?_⟩
    cases field with
    | nil => cases inField
    | cons first rest => rfl
  have same : filtered value = List.intercalate [';'] written := by
    apply filtered_of_strewn strewn
    intro c member
    rcases of_mem_intercalate member with rfl | ⟨field, known, inField⟩
    · decide
    · exact (allPlain field known c inField).1
  rw [fields, same, tokens_intercalate, nonempty]
  intro field member separator
  exact (allPlain field member ';' separator).2 rfl

end Fields

section Numbers

variable {n : ℕ} {cpuList : List ℕ} {mask : Finset ℕ} {cfg : CilkConfig}

theorem filter_decimal : (decimal n).filter isDigit = decimal n := by
  rw [List.filter_eq_self]
  intro c member
  exact isDigit_of_mem_decimal member

theorem atoi_decimal (small : n < 2 ^ 31) : atoi (decimal n) = n := by
  have digits : (decimal n).takeWhile isDigit = decimal n := by
    rw [List.takeWhile_eq_self_iff]
    intro c member
    exact isDigit_of_mem_decimal member
  rw [atoi, digits, Nat.ofDigitChars_ten_toDigits, min_eq_left (by omega),
    Int.bmod_eq_of_le] <;> omega

theorem cpuSet_of_lt {cpu : ℕ} (small : cpu < cpuSetSize) :
    cpuSet cpu mask = insert cpu mask := by
  rw [cpuSet, if_pos ⟨by omega, by omega⟩]
  rfl

theorem cpus_decimal (small : ∀ cpu ∈ cpuList, cpu < cpuSetSize) :
    cpus (cpuList.map decimal) = cpuList.toFinset := by
  have step : ∀ mask : Finset ℕ, (cpuList.map decimal).foldl
      (fun mask text => cpuSet (atoi text) mask) mask =
        mask ∪ cpuList.toFinset := by
    induction cpuList with
    | nil => simp
    | cons cpu cpuList ih =>
        intro mask
        rw [List.forall_mem_cons] at small
        have inRange : cpu < 1024 := small.1
        rw [List.map_cons, List.foldl_cons, atoi_decimal (by omega),
          cpuSet_of_lt small.1, ih small.2, List.toFinset_cons,
          Finset.insert_union, Finset.union_insert]
  rw [cpus, step, Finset.empty_union]

theorem applyEntry_nworkers (small : n < 2 ^ 31) :
    applyEntry cfg (nworkersKey, decimal n) = { cfg with nWorkers := n } := by
  rw [applyEntry, if_pos rfl, filter_decimal, atoi_decimal small]

theorem applyEntry_cpuset (small : ∀ cpu ∈ cpuList, cpu < cpuSetSize) :
    applyEntry cfg
        (cpusetKey, List.intercalate [','] (cpuList.map decimal)) =
      { cfg with bossAffinity := cpuList.toFinset } := by
  have split : tokens ',' (List.intercalate [','] (cpuList.map decimal)) =
      cpuList.map decimal := by
    rw [tokens_intercalate]
    · rw [List.filter_eq_self]
      intro word member
      obtain ⟨cpu, -, rfl⟩ := List.mem_map.mp member
      simp
    · intro word member
      obtain ⟨cpu, -, rfl⟩ := List.mem_map.mp member
      exact notMem_decimal (by decide)
  rw [applyEntry, if_neg (by decide), if_pos rfl, split, cpus_decimal small]

end Numbers

section RoundTrip

variable {n : ℕ} {cpuList : List ℕ} {cfg : CilkConfig}

/-- What one field contributes. -/
theorem foldl_nworkersField (small : n < 2 ^ 31) :
    ([nworkersField n].filterMap entry).foldl applyEntry cfg =
      { cfg with nWorkers := n } := by
  rw [List.filterMap_cons_some entry_nworkersField]
  exact applyEntry_nworkers small

theorem foldl_cpusetField (small : ∀ cpu ∈ cpuList, cpu < cpuSetSize)
    (none : cfg.bossAffinity = ∅) :
    ([cpusetField cpuList].filterMap entry).foldl applyEntry cfg =
      { cfg with bossAffinity := cpuList.toFinset } := by
  by_cases empty : cpuList = []
  · rw [List.filterMap_cons_none (by rw [entry_cpusetField, if_pos empty]),
      empty, List.toFinset_nil, ← none]
    rfl
  · rw [List.filterMap_cons_some (by rw [entry_cpusetField, if_neg empty])]
    exact applyEntry_cpuset small

theorem cilkCfgFromEnv_of_written {wanted : List (List Char)}
    {value : List Char} {mask : Finset ℕ} (written : Written wanted value)
    (short : value.length + 1 < 2 ^ 31) (some : wanted ≠ [])
    (plain : ∀ field ∈ wanted, ∀ c ∈ field, Plain c ∧ c ≠ ';') :
    cilkCfgFromEnv (.some value) mask = .some (configOf wanted) := by
  have found := fields_of_written written plain
  rw [cilkCfgFromEnv, parseValue_of_short short, found, if_neg some]
  rfl

/-- Both fields are read in any order, and each of them on its own.  The value
is not too long for the `int` that its length is kept in. -/
theorem round_trip (n : ℕ) (cpuList : List ℕ) (value : List Char)
    (mask : Finset ℕ) (short : value.length + 1 < 2 ^ 31) (fits : n < 2 ^ 31)
    (inRange : ∀ cpu ∈ cpuList, cpu < cpuSetSize) :
    (Written [nworkersField n, cpusetField cpuList] value ∨
        Written [cpusetField cpuList, nworkersField n] value →
      cilkCfgFromEnv (some value) mask = some ⟨n, cpuList.toFinset⟩) ∧
    (Written [nworkersField n] value →
      cilkCfgFromEnv (some value) mask = some ⟨n, ∅⟩) ∧
    (Written [cpusetField cpuList] value →
      cilkCfgFromEnv (some value) mask = some ⟨0, cpuList.toFinset⟩) := by
  have nworkersPlain := @plain_of_mem_nworkersField n
  have cpusetPlain := @plain_of_mem_cpusetField cpuList
  refine ⟨?_, ?_, ?_⟩
  · rintro (written | written)
    · rw [cilkCfgFromEnv_of_written written short (List.cons_ne_nil _ _)
        (by grind), configOf, ← List.singleton_append,
        List.filterMap_append, List.foldl_append, foldl_nworkersField fits,
        foldl_cpusetField inRange rfl]
    · rw [cilkCfgFromEnv_of_written written short (List.cons_ne_nil _ _)
        (by grind), configOf, ← List.singleton_append,
        List.filterMap_append, List.foldl_append,
        foldl_cpusetField inRange rfl, foldl_nworkersField fits]
  · intro written
    rw [cilkCfgFromEnv_of_written written short (List.cons_ne_nil _ _) (by grind),
      configOf, foldl_nworkersField fits]
  · intro written
    rw [cilkCfgFromEnv_of_written written short (List.cons_ne_nil _ _) (by grind),
      configOf, foldl_cpusetField inRange rfl]

/-- Both keys are written with capital letters, and there is an empty field. -/
theorem round_trip_noisy :
    ∃ value, value = "NWorkers = 4;;CPUset=1,3".toList ∧
      cilkCfgFromEnv (some value) ∅ = some ⟨4, {1, 3}⟩ := by
  have capital : ∀ c plain text, isUpper c = true → Strewn plain text →
      Strewn (toLower c :: plain) (c :: text) :=
    fun c plain text upper strewn => .capital upper strewn
  have written : Written [nworkersField 4, cpusetField [1, 3]]
      "NWorkers = 4;;CPUset=1,3".toList := by
    refine ⟨[nworkersField 4, [], cpusetField [1, 3]], by decide, ?_⟩
    apply capital 'N' _ _ (by decide)
    apply capital 'W' _ _ (by decide)
    iterate 6 apply Strewn.same
    apply @Strewn.unknown ' ' _ _ (by decide)
    apply Strewn.same
    apply @Strewn.unknown ' ' _ _ (by decide)
    iterate 3 apply Strewn.same
    apply capital 'C' _ _ (by decide)
    apply capital 'P' _ _ (by decide)
    apply capital 'U' _ _ (by decide)
    iterate 7 apply Strewn.same
    exact .nil
  exact ⟨_, rfl, ((round_trip 4 [1, 3] _ ∅ (by decide) (by decide)
    (by decide)).1 (.inl written)).trans (by simp)⟩

end RoundTrip

end Multicilk.Config
