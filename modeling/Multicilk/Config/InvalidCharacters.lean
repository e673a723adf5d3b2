import Multicilk.Config.RoundTrip

/-!
# Invalid characters in a value

The number of workers is read from the digits of its value alone.  The CPUs are
read from the value as it stands, where a letter ends the number before it and
hides the digits behind it.
-/

namespace Multicilk.Config

open Tokens

section Deletion

/-- A character that is announced not to be ignored. -/
def isValid (name : List Char) (c : Char) : Bool :=
  if name = nworkersKey then isDigit c
  else if name = cpusetKey then isDigit c || c == ','
  else true

def cleanField (field : List Char) : List Char :=
  match entry field with
  | none => field
  | some (name, data) => name ++ '=' :: data.filter (isValid name)

/-- The text with the invalid characters of the values deleted. -/
def deleteInvalid (value : List Char) : List Char :=
  List.intercalate [';'] ((fields value).map cleanField)

def Ignored (value : List Char) : Prop :=
  ∀ mask, cilkCfgFromEnv (some value) mask =
    cilkCfgFromEnv (some (deleteInvalid value)) mask

end Deletion

section Conditions

def entries (value : List Char) : List (List Char × List Char) :=
  (fields value).filterMap entry

/-- The values that are given for a key. -/
def values (key : List Char) (entries : List (List Char × List Char)) :
    List (List Char) :=
  (entries.filter fun (name, _) => name = key).map Prod.snd

/-- The values that have a valid character. -/
def validValues (key : List Char) (entries : List (List Char × List Char)) :
    List (List Char) :=
  (values key entries).filter fun data => data.any (isValid key)

/-- A text with a digit and with all its digits at its beginning. -/
def Clear (text : List Char) : Prop :=
  text.any isDigit = true ∧ text.takeWhile isDigit = text.filter isDigit

/-- The text has digits, which denote a CPU. -/
def Denotes (text : List Char) (cpu : ℕ) : Prop :=
  text.any isDigit = true ∧ atoi (text.filter isDigit) = cpu

/-- Every CPU that is read from a text is listed, and every CPU that is listed
is read from a text. -/
def Harmless (texts : List (List Char)) : Prop :=
  ∀ text ∈ texts, ∀ cpu < cpuSetSize,
    (atoi text = cpu → ∃ other ∈ texts, Denotes other cpu) ∧
      (Denotes text cpu → ∃ other ∈ texts, atoi other = cpu)

/-- The last number of workers has a digit, unless the last one that has is
zero. -/
def ClearNworkers (value : List Char) : Prop :=
  ∀ data ∈ (values nworkersKey (entries value)).getLast?,
    data.any isDigit = true ∨
      ∀ other ∈ (validValues nworkersKey (entries value)).getLast?,
        atoi (other.filter isDigit) = 0

/-- The last list of CPUs is read as it is meant.  Letters alone are read as the
first CPU. -/
def ClearCpuset (value : List Char) : Prop :=
  ∀ data ∈ (values cpusetKey (entries value)).getLast?,
    if data.any (isValid cpusetKey) = true then Harmless (tokens ',' data)
    else ∃ other ∈ (validValues cpusetKey (entries value)).getLast?,
      (∃ text ∈ tokens ',' other, Denotes text 0) ∧
        ∀ text ∈ tokens ',' other, ∀ cpu < cpuSetSize,
          Denotes text cpu → cpu = 0

end Conditions

section Cleaning

variable {value field text name data : List Char} {c : Char}

theorem plain_of_mem_filtered (member : c ∈ filtered value) : Plain c := by
  obtain ⟨d, kept, rfl⟩ := List.mem_map.mp member
  obtain ⟨-, known⟩ := List.mem_filter.mp kept
  by_cases upper : isUpper d = true
  · have lower := isLower_toLower upper
    refine ⟨by simp [isKnown, lower], ?_⟩
    simp [isLower] at lower
    simp [isUpper]
    omega
  · rw [toLower, if_neg upper]
    exact ⟨known, by simpa using upper⟩

theorem filtered_of_plain (all : ∀ c ∈ text, Plain c) : filtered text = text := by
  have strewn : Strewn text text := by
    clear all
    induction text with
    | nil => exact .nil
    | cons c text ih => exact .same ih
  exact filtered_of_strewn strewn all

/-- The parts of an entry come from its field. -/
theorem of_entry (found : entry field = some (name, data)) :
    name ≠ [] ∧ data ≠ [] ∧ '=' ∉ name ∧ '=' ∉ data ∧
      (∀ c ∈ name, c ∈ field) ∧ ∀ c ∈ data, c ∈ field := by
  rw [entry] at found
  split at found
  case h_1 first second others isTokens =>
    cases found
    have isName : name ∈ tokens '=' field := by simp [isTokens]
    have isData : data ∈ tokens '=' field := by simp [isTokens]
    refine ⟨ne_nil_of_mem_tokens isName, ne_nil_of_mem_tokens isData,
      ?_, ?_, ?_, ?_⟩
    · intro member
      exact (of_mem_tokens isName member).2 rfl
    · intro member
      exact (of_mem_tokens isData member).2 rfl
    · intro c member
      exact (of_mem_tokens isName member).1
    · intro c member
      exact (of_mem_tokens isData member).1
  case h_2 => cases found

/-- An entry without its invalid characters, if anything is left. -/
def cleanEntry : List Char × List Char → Option (List Char × List Char)
  | (name, data) =>
    if data.any (isValid name) then some (name, data.filter (isValid name))
    else none

theorem entry_cleanField :
    entry (cleanField field) = (entry field).bind cleanEntry := by
  rw [cleanField]
  cases found : entry field with
  | none => exact found
  | some parts =>
      obtain ⟨name, data⟩ := parts
      obtain ⟨named, -, nameFree, dataFree, -⟩ := of_entry found
      have cleanFree : '=' ∉ data.filter (isValid name) :=
        fun member => dataFree (List.mem_of_mem_filter member)
      refine (entry_of_parts nameFree named cleanFree).trans ?_
      rw [Option.bind_some, cleanEntry]
      by_cases valid : data.any (isValid name) = true
      · rw [if_pos valid, if_neg (by simpa using valid)]
      · rw [if_neg valid, if_pos (by simpa using valid)]

theorem of_mem_cleanField (inField : ∀ c ∈ field, Plain c ∧ c ≠ ';')
    (member : c ∈ cleanField field) : Plain c ∧ c ≠ ';' := by
  rw [cleanField] at member
  cases found : entry field with
  | none =>
      rw [found] at member
      exact inField c member
  | some parts =>
      obtain ⟨name, data⟩ := parts
      obtain ⟨-, -, -, -, fromName, fromData⟩ := of_entry found
      rw [found] at member
      rcases List.mem_append.mp member with inName | later
      · exact inField c (fromName c inName)
      · rcases List.mem_cons.mp later with rfl | inData
        · decide
        · exact inField c (fromData c (List.mem_of_mem_filter inData))

theorem cleanField_ne_nil (notEmpty : field ≠ []) : cleanField field ≠ [] := by
  rw [cleanField]
  cases found : entry field with
  | none => exact notEmpty
  | some parts => simp

theorem length_cleanField : (cleanField field).length ≤ field.length := by
  rw [cleanField]
  cases found : entry field with
  | none => exact le_rfl
  | some parts =>
      obtain ⟨name, data⟩ := parts
      rw [entry] at found
      split at found
      case h_1 first second others isTokens =>
        cases found
        have fromField := @length_intercalate_tokens _ _ '=' field
        have fewer := List.length_filter_le (isValid name) data
        rw [isTokens, List.intercalate_cons_of_ne_nil (List.cons_ne_nil _ _)]
          at fromField
        have dataFirst : data.length ≤
            (List.intercalate ['='] (data :: others)).length := by
          cases others <;> simp
        simp only [List.length_append, List.length_cons] at fromField ⊢
        omega
      case h_2 => cases found

/-- Nothing is added to a value. -/
theorem length_deleteInvalid : (deleteInvalid value).length ≤ value.length := by
  have cleaned := @length_intercalate_map _ ';' (fields value) cleanField
    fun field _ => length_cleanField
  have fromText := @length_intercalate_tokens _ _ ';' (filtered value)
  exact (cleaned.trans fromText).trans length_filtered

/-- The fields of the clean text are the clean fields. -/
theorem fields_deleteInvalid :
    fields (deleteInvalid value) = (fields value).map cleanField := by
  have inFields : ∀ field ∈ fields value, ∀ c ∈ field, Plain c ∧ c ≠ ';' := by
    intro field member c inField
    obtain ⟨inText, differs⟩ := of_mem_tokens member inField
    exact ⟨plain_of_mem_filtered inText, differs⟩
  have clean : ∀ field ∈ (fields value).map cleanField, ∀ c ∈ field,
      Plain c ∧ c ≠ ';' := by
    intro field member c inField
    obtain ⟨dirty, known, rfl⟩ := List.mem_map.mp member
    exact of_mem_cleanField (inFields dirty known) inField
  have same : filtered (deleteInvalid value) = deleteInvalid value := by
    apply filtered_of_plain
    intro c member
    rcases of_mem_intercalate member with rfl | ⟨field, known, inField⟩
    · decide
    · exact (clean field known c inField).1
  rw [fields, same, deleteInvalid, tokens_intercalate, List.filter_eq_self]
  · intro field member
    obtain ⟨dirty, known, rfl⟩ := List.mem_map.mp member
    simpa using cleanField_ne_nil (ne_nil_of_mem_tokens known)
  · intro field member separator
    exact (clean field member ';' separator).2 rfl

theorem entries_deleteInvalid :
    entries (deleteInvalid value) = (entries value).filterMap cleanEntry := by
  rw [entries, fields_deleteInvalid, entries, List.filterMap_map,
    List.filterMap_filterMap]
  congr 1
  funext field
  exact entry_cleanField

end Cleaning

section LastEntries

variable {key name data : List Char} {given : List (List Char × List Char)}

theorem values_append {later : List (List Char × List Char)} :
    values key (given ++ later) = values key given ++ values key later := by
  rw [values, List.filter_append, List.map_append, values, values]

/-- The last value for a key counts. -/
theorem foldl_applyEntry : given.foldl applyEntry ⟨0, ∅⟩ =
    ⟨((values nworkersKey given).getLast?).elim 0
        fun data => atoi (data.filter isDigit),
      ((values cpusetKey given).getLast?).elim ∅
        fun data => cpus (tokens ',' data)⟩ := by
  induction given using List.reverseRecOn with
  | nil => rfl
  | append_singleton given last ih =>
      obtain ⟨name, data⟩ := last
      have differ : cpusetKey ≠ nworkersKey := by decide
      rw [List.foldl_append, ih, List.foldl_cons, List.foldl_nil, applyEntry,
        values_append, values_append]
      by_cases isNworkers : name = nworkersKey
      · subst name
        simp [values, differ.symm]
      · by_cases isCpuset : name = cpusetKey
        · subst name
          simp [values, differ]
        · simp [values, isNworkers, isCpuset]

theorem values_clean : values key (given.filterMap cleanEntry) =
    (validValues key given).map (List.filter (isValid key)) := by
  induction given with
  | nil => rfl
  | cons first given ih =>
      obtain ⟨name, data⟩ := first
      by_cases isKey : name = key
      · subst name
        by_cases valid : data.any (isValid key) = true
        · rw [List.filterMap_cons_some (by rw [cleanEntry, if_pos valid])]
          simp only [values, validValues] at ih ⊢
          simp [ih, valid]
        · rw [List.filterMap_cons_none (by rw [cleanEntry, if_neg valid])]
          simp only [values, validValues] at ih ⊢
          simp [ih, valid]
      · have skipped : values key
            ((cleanEntry (name, data)).toList ++ given.filterMap cleanEntry) =
              values key (given.filterMap cleanEntry) := by
          rw [cleanEntry]
          split <;> simp [values, isKey]
        have joined : ((name, data) :: given).filterMap cleanEntry =
            (cleanEntry (name, data)).toList ++ given.filterMap cleanEntry := by
          cases clean : cleanEntry (name, data) with
          | none => simp [clean]
          | some entry => simp [clean]
        rw [joined, skipped, ih]
        simp [validValues, values, isKey]

end LastEntries

section Sets

variable {texts : List (List Char)} {data text : List Char} {cpu : ℕ}

theorem mem_cpus : cpu ∈ cpus texts ↔
    cpu < cpuSetSize ∧ ∃ text ∈ texts, atoi text = cpu := by
  have step : ∀ mask : Finset ℕ, cpu ∈ texts.foldl
      (fun mask text => cpuSet (atoi text) mask) mask ↔
        cpu ∈ mask ∨ cpu < cpuSetSize ∧ ∃ text ∈ texts, atoi text = cpu := by
    induction texts with
    | nil => simp
    | cons text texts ih =>
        intro mask
        have one : cpu ∈ cpuSet (atoi text) mask ↔
            cpu ∈ mask ∨ cpu < cpuSetSize ∧ atoi text = cpu := by
          rw [cpuSet]
          split
          case isTrue inRange =>
            have isCpu : cpu = (atoi text).toNat ↔
                cpu < cpuSetSize ∧ atoi text = cpu := by
              omega
            rw [Finset.mem_insert, isCpu, or_comm]
          case isFalse outOfRange =>
            have notCpu : ¬ (cpu < cpuSetSize ∧ atoi text = cpu) := by
              omega
            rw [or_iff_left notCpu]
        rw [List.foldl_cons, ih, one]
        simp
        grind
  rw [cpus, step]
  simp

theorem takeWhile_filter_digits :
    (text.filter isDigit).takeWhile isDigit = text.filter isDigit := by
  rw [List.takeWhile_eq_self_iff]
  intro c member
  exact (List.mem_filter.mp member).2

/-- A clear text is read as it is meant. -/
theorem Clear.atoi_eq (clear : Clear text) :
    atoi (text.filter isDigit) = atoi text := by
  rw [atoi, takeWhile_filter_digits, atoi, clear.2]

theorem harmless_of_clear (clear : ∀ text ∈ texts, Clear text) :
    Harmless texts := by
  intro text member cpu _
  have same := (clear text member).atoi_eq
  constructor
  · intro denotes
    exact ⟨text, member, (clear text member).1, same.trans denotes⟩
  · intro denotes
    exact ⟨text, member, same.symm.trans denotes.2⟩

theorem mem_cpus_clean :
    cpu ∈ cpus (tokens ',' (data.filter (isValid cpusetKey))) ↔
      cpu < cpuSetSize ∧ ∃ text ∈ tokens ',' data, Denotes text cpu := by
  have sameDigits : ∀ text ∈ tokens ',' data,
      text.filter (isValid cpusetKey) = text.filter isDigit := by
    intro text member
    apply List.filter_congr
    intro c inText
    have differs := (of_mem_tokens member inText).2
    simp [isValid, differs, show cpusetKey ≠ nworkersKey by decide]
  rw [mem_cpus, tokens_filter (by decide)]
  refine and_congr_right fun small => ?_
  constructor
  · rintro ⟨clean, member, denotes⟩
    obtain ⟨isClean, notEmpty⟩ := List.mem_filter.mp member
    obtain ⟨text, isText, rfl⟩ := List.mem_map.mp isClean
    rw [sameDigits text isText] at notEmpty denotes
    exact ⟨text, isText, by simpa using notEmpty, denotes⟩
  · rintro ⟨text, isText, hasDigit, denotes⟩
    refine ⟨text.filter isDigit, ?_, denotes⟩
    rw [List.mem_filter]
    constructor
    · rw [← sameDigits text isText]
      exact List.mem_map_of_mem isText
    · simpa using hasDigit

theorem cpus_clean_iff : cpus (tokens ',' data) =
    cpus (tokens ',' (data.filter (isValid cpusetKey))) ↔
      Harmless (tokens ',' data) := by
  rw [Finset.ext_iff]
  constructor
  · intro same text member cpu small
    have agrees := same cpu
    rw [mem_cpus, mem_cpus_clean] at agrees
    constructor
    · intro denotes
      exact (agrees.mp ⟨small, text, member, denotes⟩).2
    · intro denotes
      exact (agrees.mpr ⟨small, text, member, denotes⟩).2
  · intro harmless cpu
    rw [mem_cpus, mem_cpus_clean]
    refine and_congr_right fun small => ?_
    constructor
    · rintro ⟨text, member, denotes⟩
      exact (harmless text member cpu small).1 denotes
    · rintro ⟨text, member, denotes⟩
      exact (harmless text member cpu small).2 denotes

/-- Letters alone are one text, and that is read as zero. -/
theorem cpus_of_letters (notEmpty : data ≠ [])
    (letters : ¬ data.any (isValid cpusetKey) = true) :
    cpus (tokens ',' data) = {0} := by
  have none : ∀ c ∈ data, isDigit c = false ∧ c ≠ ',' := by
    intro c member
    have invalid : isValid cpusetKey c = false := by
      by_contra valid
      exact letters (List.any_eq_true.mpr ⟨c, member, by simpa using valid⟩)
    simpa [isValid, show cpusetKey ≠ nworkersKey by decide] using invalid
  have free : ',' ∉ data := fun member => (none ',' member).2 rfl
  have zero : atoi data = 0 := by
    cases data with
    | nil => exact absurd rfl notEmpty
    | cons c data =>
        rw [atoi, List.takeWhile_cons_of_neg
          (by simp [none c List.mem_cons_self])]
        decide
  rw [tokens_word free notEmpty, cpus, List.foldl_cons, zero]
  decide

end Sets

section Ignored

variable {value : List Char}

theorem cilkCfgFromEnv_eq {mask : Finset ℕ}
    (short : value.length + 1 < 2 ^ 31) : cilkCfgFromEnv (some value) mask =
      if fields value = [] then none
      else some ((entries value).foldl applyEntry ⟨0, ∅⟩) := by
  rw [cilkCfgFromEnv, parseValue_of_short short]
  split <;> rfl

/-- The values that count in the clean text. -/
theorem values_deleteInvalid {key : List Char} :
    (values key (entries (deleteInvalid value))).getLast? =
      ((validValues key (entries value)).getLast?).map
        (List.filter (isValid key)) := by
  rw [entries_deleteInvalid, values_clean, List.getLast?_map]

theorem ignored_iff_config (short : value.length + 1 < 2 ^ 31) :
    Ignored value ↔ (entries value).foldl applyEntry ⟨0, ∅⟩ =
      (entries (deleteInvalid value)).foldl applyEntry ⟨0, ∅⟩ := by
  have fields_eq := @fields_deleteInvalid value
  have cleanShort : (deleteInvalid value).length + 1 < 2 ^ 31 := by
    have shorter := @length_deleteInvalid value
    omega
  by_cases none : fields value = []
  · have same : entries (deleteInvalid value) = entries value := by
      rw [entries, fields_eq, entries, none]
      rfl
    rw [same]
    refine iff_of_true ?_ rfl
    intro mask
    rw [cilkCfgFromEnv_eq short, cilkCfgFromEnv_eq cleanShort, fields_eq, none]
    rfl
  · have some : fields (deleteInvalid value) ≠ [] := by
      rwa [fields_eq, ne_eq, List.map_eq_nil_iff]
    rw [Ignored]
    simp only [cilkCfgFromEnv_eq short, cilkCfgFromEnv_eq cleanShort,
      if_neg none, if_neg some, Option.some.injEq, forall_const]

/-- A value that counts has a valid character, or it is given up for the last
one that has. -/
theorem lastValid_of_last {key data : List Char}
    {given : List (List Char × List Char)}
    (last : (values key given).getLast? = some data)
    (valid : data.any (isValid key) = true) :
    (validValues key given).getLast? = some data := by
  obtain ⟨before, isLast⟩ := List.getLast?_eq_some_iff.mp last
  rw [validValues, isLast, List.filter_append]
  simp [valid]

theorem validValues_eq_nil_of_last {key : List Char}
    {given : List (List Char × List Char)}
    (last : (values key given).getLast? = none) :
    (validValues key given).getLast? = none := by
  rw [List.getLast?_eq_none_iff] at last
  rw [validValues, last]
  rfl

theorem atoi_nil : atoi [] = 0 := by
  decide

theorem nworkers_iff {given : List (List Char × List Char)} :
    ((values nworkersKey given).getLast?).elim 0
        (fun data => atoi (data.filter isDigit)) =
      (((validValues nworkersKey given).getLast?).map
        (List.filter (isValid nworkersKey))).elim 0
        (fun data => atoi (data.filter isDigit)) ↔
      ∀ data ∈ (values nworkersKey given).getLast?, data.any isDigit = true ∨
        ∀ other ∈ (validValues nworkersKey given).getLast?,
          atoi (other.filter isDigit) = 0 := by
  have digits : ∀ data : List Char,
      (data.filter (isValid nworkersKey)).filter isDigit =
        data.filter isDigit := by
    intro data
    rw [List.filter_filter]
    simp [isValid]
  cases last : (values nworkersKey given).getLast? with
  | none => simp [validValues_eq_nil_of_last last]
  | some data =>
      by_cases valid : data.any isDigit = true
      · have same := lastValid_of_last last (by simpa [isValid] using valid)
        refine iff_of_true ?_ fun found isLast => ?_
        · rw [same, Option.map_some, Option.elim_some, Option.elim_some, digits]
        · cases isLast
          exact .inl valid
      · have letters : data.filter isDigit = [] := by simpa using valid
        cases other : (validValues nworkersKey given).getLast? with
        | none => simp [letters, atoi_nil]
        | some other =>
            have unread : ¬ ∃ c ∈ data, isDigit c = true := by
              simpa using valid
            simp [letters, atoi_nil, digits, unread, -List.filter_filter]
            exact eq_comm

theorem of_mem_values {key data : List Char}
    (member : data ∈ values key (entries value)) : data ≠ [] := by
  obtain ⟨⟨name, found⟩, isEntry, rfl⟩ := List.mem_map.mp member
  obtain ⟨field, -, isField⟩ :=
    List.mem_filterMap.mp (List.mem_filter.mp isEntry).1
  exact (of_entry isField).2.1

theorem cpuset_iff :
    ((values cpusetKey (entries value)).getLast?).elim ∅
        (fun data => cpus (tokens ',' data)) =
      (((validValues cpusetKey (entries value)).getLast?).map
        (List.filter (isValid cpusetKey))).elim ∅
        (fun data => cpus (tokens ',' data)) ↔ ClearCpuset value := by
  rw [ClearCpuset]
  cases last : (values cpusetKey (entries value)).getLast? with
  | none => simp [validValues_eq_nil_of_last last]
  | some data =>
      simp only [Option.mem_def, Option.some.injEq, forall_eq', Option.elim_some]
      by_cases valid : data.any (isValid cpusetKey) = true
      · rw [lastValid_of_last last valid, if_pos valid]
        exact cpus_clean_iff
      · have notEmpty := of_mem_values (List.mem_of_getLast? last)
        rw [cpus_of_letters notEmpty valid, if_neg valid]
        cases (validValues cpusetKey (entries value)).getLast? with
        | none => simp
        | some other =>
            rw [Option.map_some, Option.elim_some, eq_comm,
              Finset.eq_singleton_iff_unique_mem, mem_cpus_clean]
            simp only [mem_cpus_clean, Option.some.injEq, exists_eq_left',
              and_imp, forall_exists_index]
            refine and_congr (and_iff_right (by decide)) ?_
            exact ⟨fun only text member cpu small denotes =>
                only cpu small text member denotes,
              fun only cpu small text member denotes =>
                only text member cpu small denotes⟩

/-- When the invalid characters make no difference, in a value that is not too
long for the `int` that its length is kept in. -/
theorem ignored_iff (value : List Char) (short : value.length + 1 < 2 ^ 31) :
    Ignored value ↔ ClearNworkers value ∧ ClearCpuset value := by
  rw [ignored_iff_config short, foldl_applyEntry, foldl_applyEntry,
    CilkConfig.mk.injEq, values_deleteInvalid, values_deleteInvalid]
  exact and_congr nworkers_iff cpuset_iff

/-- Letters behind the digits make no difference. -/
theorem ignored_behind_digits :
    ∃ value, value = "nworkers=x4y;cpuset=1a,3".toList ∧ Ignored value ∧
      deleteInvalid value = "nworkers=4;cpuset=1,3".toList := by
  refine ⟨_, rfl, (ignored_iff _ (by decide)).mpr ⟨?_, ?_⟩, by decide⟩
  · intro data last
    have isLast : (values nworkersKey
        (entries "nworkers=x4y;cpuset=1a,3".toList)).getLast? =
          some "x4y".toList := by
      decide
    rw [isLast] at last
    cases last
    exact .inl (by decide)
  · intro data last
    have isLast : (values cpusetKey
        (entries "nworkers=x4y;cpuset=1a,3".toList)).getLast? =
          some "1a,3".toList := by
      decide
    rw [isLast] at last
    cases last
    rw [if_pos (by decide)]
    apply harmless_of_clear
    have texts : tokens ',' "1a,3".toList = ["1a".toList, "3".toList] := by
      decide
    rw [texts, List.forall_mem_cons, List.forall_mem_singleton]
    exact ⟨⟨by decide, by decide⟩, by decide, by decide⟩

/-- A letter before the number of a CPU. -/
theorem letter_hides_cpu : ¬ ∀ value : List Char, Ignored value := by
  intro ignored
  have read : cilkCfgFromEnv (some "cpuset=a1".toList) ∅ =
      some ⟨0, {0}⟩ := by
    decide
  have meant : cilkCfgFromEnv (some (deleteInvalid "cpuset=a1".toList)) ∅ =
      some ⟨0, {1}⟩ := by
    decide
  have same := ignored "cpuset=a1".toList ∅
  rw [read, meant] at same
  exact absurd same (by decide)

end Ignored

end Multicilk.Config
