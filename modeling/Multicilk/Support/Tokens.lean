/-!
# Tokens

The tokens of a text are the pieces between its delimiters that are not empty.
They can be split off one by one.
-/

namespace Tokens

variable {Letter : Type u} [DecidableEq Letter]

def tokens (delimiter : Letter) (text : List Letter) : List (List Letter) :=
  (text.splitOn delimiter).filter fun piece => !piece.isEmpty

/-- The first token, and the text behind the delimiter that ends it. -/
def nextToken (delimiter : Letter) (text : List Letter) :
    Option (List Letter × List Letter) :=
  match text.dropWhile (· == delimiter) with
  | [] => none
  | found => some (found.takeWhile (· != delimiter),
      (found.dropWhile (· != delimiter)).tail)

section Pieces

variable {delimiter : Letter} {text word rest token : List Letter}
  {words : List (List Letter)}

@[simp] theorem tokens_nil : tokens delimiter [] = [] := by
  simp [tokens]

theorem tokens_append_cons :
    tokens delimiter (text ++ delimiter :: rest) =
      tokens delimiter text ++ tokens delimiter rest := by
  rw [tokens, List.splitOn_append_cons_self, List.filter_append, tokens, tokens]

theorem tokens_cons_self :
    tokens delimiter (delimiter :: text) = tokens delimiter text :=
  @tokens_append_cons _ _ delimiter [] text

theorem tokens_word (notMem : delimiter ∉ word) (notEmpty : word ≠ []) :
    tokens delimiter word = [word] := by
  rw [tokens, List.splitOn_eq_singleton notMem]
  simp [notEmpty]

theorem tokens_intercalate (free : ∀ word ∈ words, delimiter ∉ word) :
    tokens delimiter (List.intercalate [delimiter] words) =
      words.filter fun piece => !piece.isEmpty := by
  by_cases none : words = []
  · subst words
    rfl
  · rw [tokens, List.splitOn_intercalate delimiter free none]

end Pieces

section Steps

variable {delimiter : Letter} {text rest token : List Letter}

omit [DecidableEq Letter] in
theorem not_of_dropWhile {stops : Letter → Bool} {first : Letter}
    (found : text.dropWhile stops = first :: rest) : stops first = false := by
  have stopped := List.head?_dropWhile_not stops text
  rwa [found] at stopped

theorem tokens_dropWhile :
    tokens delimiter (text.dropWhile (· == delimiter)) =
      tokens delimiter text := by
  induction text with
  | nil => rfl
  | cons first text ih =>
      by_cases same : first = delimiter
      · subst first
        rw [List.dropWhile_cons_of_pos (by simp), ih, tokens_cons_self]
      · rw [List.dropWhile_cons_of_neg (by simpa using same)]

/-- A text that does not begin with a delimiter begins with a token. -/
theorem tokens_cons {first : Letter} (notDelimiter : first ≠ delimiter) :
    tokens delimiter (first :: text) =
      (first :: text).takeWhile (· != delimiter) ::
        tokens delimiter
          ((first :: text).dropWhile (· != delimiter)).tail := by
  obtain ⟨word, isWord⟩ : ∃ word, word =
      (first :: text).takeWhile (· != delimiter) := ⟨_, rfl⟩
  have split := @List.takeWhile_append_dropWhile _ (· != delimiter)
    (first :: text)
  have clean : delimiter ∉ word := by
    intro member
    have differs := List.all_eq_true.mp
      (@List.all_takeWhile _ (· != delimiter) (first :: text)) delimiter
      (isWord ▸ member)
    simp at differs
  have notEmpty : word ≠ [] := by
    rw [isWord, List.takeWhile_cons_of_pos (by simpa using notDelimiter)]
    exact List.cons_ne_nil _ _
  rw [← isWord] at split ⊢
  cases left : (first :: text).dropWhile (· != delimiter) with
  | nil =>
      rw [left, List.append_nil] at split
      rw [← split, tokens_word clean notEmpty]
      simp
  | cons stop rest =>
      have isDelimiter : stop = delimiter := by
        simpa using not_of_dropWhile left
      rw [left, isDelimiter] at split
      rw [← split, tokens_append_cons, tokens_word clean notEmpty]
      rfl

theorem tokens_eq_nil_iff :
    tokens delimiter text = [] ↔ ∀ letter ∈ text, letter = delimiter := by
  induction text with
  | nil => simp
  | cons first text ih =>
      rw [List.forall_mem_cons]
      by_cases same : first = delimiter
      · subst first
        rw [tokens_cons_self, ih]
        simp
      · rw [tokens_cons same]
        simp [same]

/-- What `nextToken` finds is the first of the tokens. -/
theorem nextToken_spec :
    match nextToken delimiter text with
    | none => tokens delimiter text = []
    | some (token, rest) =>
        tokens delimiter text = token :: tokens delimiter rest ∧
          rest.length < text.length := by
  have same := @tokens_dropWhile _ _ delimiter text
  have shorter := (List.dropWhile_suffix (l := text)
    (· == delimiter)).length_le
  rw [← same, nextToken]
  cases found : text.dropWhile (· == delimiter) with
  | nil => simp
  | cons first after =>
      have notDelimiter : first ≠ delimiter := by
        simpa using not_of_dropWhile found
      rw [found, List.length_cons] at shorter
      refine ⟨tokens_cons notDelimiter, ?_⟩
      have tail := (List.dropWhile_suffix (l := after)
        (· != delimiter)).length_le
      rw [List.dropWhile_cons_of_pos (by simpa using notDelimiter),
        List.length_tail]
      omega

theorem ne_nil_of_mem_tokens (member : token ∈ tokens delimiter text) :
    token ≠ [] := by
  obtain ⟨-, notEmpty⟩ := List.mem_filter.mp member
  simpa using notEmpty

end Steps

section Letters

variable {delimiter letter : Letter} {text token : List Letter}
  {keep : Letter → Bool}

theorem of_mem_splitOn (member : token ∈ text.splitOn delimiter)
    (inToken : letter ∈ token) : letter ∈ text ∧ letter ≠ delimiter := by
  induction text generalizing token with
  | nil =>
      rw [List.splitOn_nil, List.mem_singleton] at member
      subst token
      cases inToken
  | cons first text ih =>
      rw [List.splitOn_cons_eq_if_modifyHead] at member
      by_cases same : first = delimiter
      · rw [if_pos (by simpa using same), List.mem_cons] at member
        rcases member with rfl | later
        · cases inToken
        · obtain ⟨inText, differs⟩ := ih later inToken
          exact ⟨List.mem_cons_of_mem _ inText, differs⟩
      · rw [if_neg (by simpa using same)] at member
        cases pieces : text.splitOn delimiter with
        | nil => exact absurd pieces (List.splitOn_ne_nil _ _)
        | cons piece others =>
            rw [pieces, List.modifyHead_cons, List.mem_cons] at member
            rcases member with rfl | later
            · rcases List.mem_cons.mp inToken with rfl | inPiece
              · exact ⟨List.mem_cons_self, same⟩
              · obtain ⟨inText, differs⟩ :=
                  ih (pieces ▸ List.mem_cons_self) inPiece
                exact ⟨List.mem_cons_of_mem _ inText, differs⟩
            · obtain ⟨inText, differs⟩ :=
                ih (pieces ▸ List.mem_cons_of_mem _ later) inToken
              exact ⟨List.mem_cons_of_mem _ inText, differs⟩

/-- The letters of a token come from the text, without the delimiters. -/
theorem of_mem_tokens (member : token ∈ tokens delimiter text)
    (inToken : letter ∈ token) : letter ∈ text ∧ letter ≠ delimiter :=
  of_mem_splitOn (List.mem_filter.mp member).1 inToken

theorem splitOn_filter (kept : keep delimiter = true) :
    (text.filter keep).splitOn delimiter =
      (text.splitOn delimiter).map (List.filter keep) := by
  induction text with
  | nil => rfl
  | cons first text ih =>
      by_cases same : first = delimiter
      · subst first
        rw [List.filter_cons_of_pos kept, List.splitOn_cons_eq_if_modifyHead,
          List.splitOn_cons_eq_if_modifyHead, if_pos (by simp),
          if_pos (by simp), ih]
        rfl
      · have differs : ¬ (first == delimiter) = true := by simpa using same
        rw [@List.splitOn_cons_eq_if_modifyHead _ _ _ first text,
          if_neg differs]
        by_cases keeps : keep first = true
        · rw [List.filter_cons_of_pos keeps,
            List.splitOn_cons_eq_if_modifyHead, if_neg differs, ih]
          cases text.splitOn delimiter with
          | nil => rfl
          | cons piece others => simp [keeps]
        · rw [List.filter_cons_of_neg keeps, ih]
          cases text.splitOn delimiter with
          | nil => rfl
          | cons piece others => simp [keeps]

/-- Letters can be removed before a text is split, or afterwards. -/
theorem tokens_filter (kept : keep delimiter = true) :
    tokens delimiter (text.filter keep) =
      ((tokens delimiter text).map (List.filter keep)).filter
        fun piece => !piece.isEmpty := by
  rw [tokens, splitOn_filter kept, tokens]
  generalize text.splitOn delimiter = pieces
  induction pieces with
  | nil => rfl
  | cons piece pieces ih =>
      cases piece with
      | nil => simpa using ih
      | cons first piece => simp [List.filter_cons, ih]

end Letters

section Lengths

variable {delimiter separator : Letter} {text rest token : List Letter}
  {words : List (List Letter)}

theorem flatten_splitOn :
    (text.splitOn delimiter).flatten = text.filter (· != delimiter) := by
  induction text with
  | nil => rfl
  | cons first text ih =>
      rw [List.splitOn_cons_eq_if_modifyHead]
      by_cases same : first = delimiter
      · subst first
        rw [if_pos (by simp), List.filter_cons_of_neg (by simp), ← ih]
        rfl
      · rw [if_neg (by simpa using same),
          List.filter_cons_of_pos (by simpa using same), ← ih]
        cases pieces : text.splitOn delimiter with
        | nil => exact absurd pieces (List.splitOn_ne_nil _ _)
        | cons piece others => rfl

/-- Only the delimiters are lost. -/
theorem flatten_tokens :
    (tokens delimiter text).flatten = text.filter (· != delimiter) := by
  rw [tokens, List.flatten_filter_not_isEmpty, flatten_splitOn]

theorem length_le_of_mem_tokens (member : token ∈ tokens delimiter text) :
    token.length ≤ text.length := by
  have inFlatten := (List.sublist_flatten_of_mem member).length_le
  rw [flatten_tokens] at inFlatten
  exact Nat.le_trans inFlatten (List.length_filter_le _ _)

/-- More text adds a token, unless it consists of delimiters. -/
theorem tokens_append_eq_iff :
    tokens delimiter (text ++ rest) = tokens delimiter text ↔
      ∀ letter ∈ rest, letter = delimiter := by
  constructor
  · intro same
    have letters := congrArg List.flatten same
    rw [flatten_tokens, flatten_tokens, List.filter_append,
      List.append_right_eq_self, List.filter_eq_nil_iff] at letters
    simpa using letters
  · intro delimiters
    cases rest with
    | nil => rw [List.append_nil]
    | cons first rest =>
        rw [List.forall_mem_cons] at delimiters
        rw [delimiters.1, tokens_append_cons,
          tokens_eq_nil_iff.mpr delimiters.2, List.append_nil]

omit [DecidableEq Letter] in
theorem intercalate_filter_sublist :
    (List.intercalate [separator]
      (words.filter fun piece => !piece.isEmpty)).Sublist
        (List.intercalate [separator] words) := by
  induction words with
  | nil => exact .slnil
  | cons word words ih =>
      by_cases last : words = []
      · subst words
        cases word <;> simp
      · rw [List.intercalate_cons_of_ne_nil last]
        cases word with
        | nil => exact ih.trans (List.sublist_append_right _ _)
        | cons first word =>
            rw [List.filter_cons_of_pos rfl]
            by_cases only : (words.filter fun piece => !piece.isEmpty) = []
            · rw [only, List.intercalate_singleton, List.append_assoc]
              exact List.sublist_append_left _ _
            · rw [List.intercalate_cons_of_ne_nil only]
              exact (List.Sublist.refl _).append ih

theorem length_intercalate_tokens :
    (List.intercalate [delimiter] (tokens delimiter text)).length ≤
      text.length := by
  have sublist := @intercalate_filter_sublist _ delimiter
    (text.splitOn delimiter)
  rw [List.intercalate_splitOn] at sublist
  exact sublist.length_le

omit [DecidableEq Letter] in
theorem length_intercalate_map {change : List Letter → List Letter}
    (shorter : ∀ word ∈ words, (change word).length ≤ word.length) :
    (List.intercalate [separator] (words.map change)).length ≤
      (List.intercalate [separator] words).length := by
  induction words with
  | nil => exact Nat.le_refl _
  | cons word words ih =>
      rw [List.forall_mem_cons] at shorter
      have ih := ih shorter.2
      by_cases last : words = []
      · subst words
        simpa using shorter.1
      · rw [List.map_cons, List.intercalate_cons_of_ne_nil last,
          List.intercalate_cons_of_ne_nil (by simpa using last)]
        simp only [List.length_append]
        omega

end Lengths

end Tokens
