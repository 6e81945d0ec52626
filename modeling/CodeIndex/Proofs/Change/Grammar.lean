import CodeIndex.Change.NameStatus
import CodeIndex.Proofs.Text.Utf8

/-!
The grammar of reports of differences. A report is read if and only if its tokens split into lines
of the grammar, and then as the entries of these lines in their order. A report that is not read
stops within a line, or goes on with a token that starts with no letter of the grammar.
-/

namespace CodeIndex

inductive DiffDeed where
  | added
  | modified
  | retyped
  | unmerged
  | deleted
deriving DecidableEq, Repr, Inhabited

namespace DiffDeed

def letter : DiffDeed → Char
  | .added => 'A'
  | .modified => 'M'
  | .retyped => 'T'
  | .unmerged => 'U'
  | .deleted => 'D'

/-- The entry for a path. -/
def entry (path : String) : DiffDeed → DiffEntry
  | .added => .added path
  | .modified | .retyped | .unmerged => .modified path
  | .deleted => .deleted path

end DiffDeed

/-- A line of a report, for paths of any form. The note is what follows the letter of the status:
the score of a rename or a copy, and in general anything. -/
inductive DiffLine (π : Type) where
  | plain (deed : DiffDeed) (note : List UInt8) (path : π)
  | renamed (note : List UInt8) (source target : π)
  | copied (note : List UInt8) (source target : π)
deriving DecidableEq, Repr

namespace DiffLine

variable {π ρ : Type}

def letter : DiffLine π → Char
  | .plain deed _ _ => deed.letter
  | .renamed _ _ _ => 'R'
  | .copied _ _ _ => 'C'

def letters : List Char := ['A', 'M', 'T', 'U', 'D', 'R', 'C']

def note : DiffLine π → List UInt8
  | .plain _ note _ | .renamed note _ _ | .copied note _ _ => note

/-- The paths of a line in their order. -/
def paths : DiffLine π → List π
  | .plain _ _ path => [path]
  | .renamed _ source target | .copied _ source target => [source, target]

/-- A line with each path in another form. -/
def map (f : π → ρ) : DiffLine π → DiffLine ρ
  | .plain deed note path => .plain deed note (f path)
  | .renamed note source target => .renamed note (f source) (f target)
  | .copied note source target => .copied note (f source) (f target)

/-- What a line says; a copy adds its target. -/
def entry : DiffLine String → DiffEntry
  | .plain deed _ path => deed.entry path
  | .renamed _ source target => .renamed source target
  | .copied _ _ target => .added target

/-- The token of the status. -/
def status (line : DiffLine π) : List UInt8 := line.letter.toUInt8 :: line.note

theorem status_map (f : π → ρ) (line : DiffLine π) : (line.map f).status = line.status := by
  cases line <;> rfl

theorem paths_map (f : π → ρ) (line : DiffLine π) : (line.map f).paths = line.paths.map f := by
  cases line <;> rfl

/-- The tokens of a line. -/
def tokens (line : DiffLine (List UInt8)) : List (List UInt8) := line.status :: line.paths

def textTokens (line : DiffLine String) : List (List UInt8) :=
  (line.map (·.toUTF8.data.toList)).tokens

/-- The bytes of a report: every token ends in NUL. -/
def report (lines : List (DiffLine String)) : ByteArray :=
  ⟨((lines.flatMap textTokens).flatMap (· ++ [0])).toArray⟩

/-- No NUL stands in a line, and its paths are not empty. -/
structure Writable (line : DiffLine String) : Prop where
  note : 0 ∉ line.note
  path : ∀ path ∈ line.paths, path ≠ "" ∧ '\x00' ∉ path.toList

end DiffLine

namespace DiffEntry

/-- The tokens of a report: what stands between its NULs and is not empty. -/
def tokens (bytes : ByteArray) : List (List UInt8) :=
  (bytes.data.toList.splitOn 0).filter (!·.isEmpty)

theorem fields_eq (bytes : ByteArray) : fields bytes = (tokens bytes).map Text.read := by
  unfold fields tokens
  rw [Text.splitOn_eq, Text.byteList]
  rfl

theorem letter_mem {π : Type} (line : DiffLine π) : line.letter ∈ DiffLine.letters := by
  unfold DiffLine.letters
  cases line with
  | plain deed note path => cases deed <;> simp [DiffLine.letter, DiffDeed.letter]
  | renamed note source target => simp [DiffLine.letter]
  | copied note source target => simp [DiffLine.letter]

theorem read_letter (token : List UInt8) (letter : Char) (h : letter ∈ DiffLine.letters) :
    (Text.read token).toList.head? = some letter ↔ token.head? = some letter.toUInt8 := by
  have hletters : DiffLine.letters.all fun letter => letter.toNat < 128 ∧ letter ≠ '\x00' := rfl
  obtain ⟨hascii, hne⟩ := of_decide_eq_true (List.all_eq_true.mp hletters letter h)
  exact Text.read_head token letter hascii hne

theorem read_status (line : DiffLine (List UInt8)) :
    (Text.read line.status).toList.head? = some line.letter :=
  (read_letter _ _ (letter_mem line)).mpr rfl

/-- A line at the front of a report is its entry, whatever its paths look like. -/
theorem ofFields_line (line : DiffLine (List UInt8)) (rest : List (List UInt8)) :
    ofFields ((line.tokens ++ rest).map Text.read) =
      (ofFields (rest.map Text.read)).map ((line.map Text.read).entry :: ·) := by
  -- only the first letter of the status decides how many tokens belong to the line
  have hhead := read_status line
  cases line with
  | plain deed note path =>
    show ofFields (_ :: Text.read path :: rest.map Text.read) = _
    rw [ofFields.eq_def]
    dsimp only
    rw [hhead]
    cases deed <;> rfl
  | renamed note source target =>
    show ofFields (_ :: Text.read source :: Text.read target :: rest.map Text.read) = _
    rw [ofFields.eq_def]
    dsimp only
    rw [hhead]
    rfl
  | copied note source target =>
    show ofFields (_ :: Text.read source :: Text.read target :: rest.map Text.read) = _
    rw [ofFields.eq_def]
    dsimp only
    rw [hhead]
    rfl

theorem ofFields_lines (lines : List (DiffLine (List UInt8))) (rest : List (List UInt8)) :
    ofFields ((lines.flatMap DiffLine.tokens ++ rest).map Text.read) =
      (ofFields (rest.map Text.read)).map (lines.map (·.map Text.read |>.entry) ++ ·) := by
  induction lines with
  | nil => cases h : ofFields (rest.map Text.read) <;> simp [h, Except.map]
  | cons line lines ih =>
    rw [List.flatMap_cons, List.append_assoc, ofFields_line, ih]
    cases ofFields (rest.map Text.read) <;> rfl

def Unknown (status : List UInt8) : Prop :=
  ∀ letter ∈ DiffLine.letters, status.head? ≠ some letter.toUInt8

/-- How the unread part of a report cannot be read, and the error for it. -/
inductive Stops : List (List UInt8) → IndexError → Prop where
  | cut (line : DiffLine (List UInt8)) (kept : Nat) (h : kept < line.paths.length) :
    Stops (line.status :: line.paths.take kept) (truncated (Text.read line.status))
  | unknown (status : List UInt8) (rest : List (List UInt8)) (h : Unknown status) :
    Stops (status :: rest)
      (.git ("unexpected diff status " ++ Text.quoted (Text.read status)))

/-- A line with two paths that is cut off after its status, or after its first path. -/
theorem ofFields_cut (line : DiffLine (List UInt8))
    (hletter : line.letter = 'R' ∨ line.letter = 'C') (path : Option (List UInt8)) :
    ofFields ((line.status :: path.toList).map Text.read) =
      .error (truncated (Text.read line.status)) := by
  have hhead := read_status line
  cases path with
  | none =>
    show ofFields [_] = _
    rw [ofFields.eq_def]
    dsimp only
    rw [hhead]
    rcases hletter with h | h <;> rw [h] <;> rfl
  | some path =>
    show ofFields [_, _] = _
    rw [ofFields.eq_def]
    dsimp only
    rw [hhead]
    rcases hletter with h | h <;> rw [h] <;> rfl

theorem ofFields_unknown (status : List UInt8) (rest : List (List UInt8)) (h : Unknown status) :
    ofFields ((status :: rest).map Text.read) =
      .error (.git ("unexpected diff status " ++ Text.quoted (Text.read status))) := by
  -- a token that is read with a letter of the grammar also starts with its byte
  have hhead (letter : Char) (hread : (Text.read status).toList.head? = some letter)
      (hmem : letter ∈ DiffLine.letters) : False :=
    h letter hmem ((read_letter status letter hmem).mp hread)
  cases rest with
  | nil =>
    show ofFields [_] = _
    rw [ofFields.eq_def]
    dsimp only
    split
    all_goals first | rfl | exact (hhead _ ‹_› (by decide)).elim
  | cons path rest =>
    show ofFields (_ :: _ :: _) = _
    rw [ofFields.eq_def]
    dsimp only
    split
    all_goals first | rfl | exact (hhead _ ‹_› (by decide)).elim

theorem Stops.ofFields_eq {rest : List (List UInt8)} {e : IndexError} (h : Stops rest e) :
    ofFields (rest.map Text.read) = .error e := by
  cases h with
  | cut line kept hkept =>
    cases line with
    | plain deed note path =>
      obtain rfl : kept = 0 := Nat.lt_one_iff.mp hkept
      have hhead := read_status (.plain deed note path)
      show ofFields [_] = _
      rw [ofFields.eq_def]
      dsimp only
      rw [hhead]
      cases deed <;> rfl
    | renamed note source target =>
      have hcut := ofFields_cut (.renamed note source target) (.inl rfl)
      obtain rfl | rfl := Nat.le_one_iff_eq_zero_or_eq_one.mp (Nat.le_of_lt_succ hkept)
      · exact hcut none
      · exact hcut (some source)
    | copied note source target =>
      have hcut := ofFields_cut (.copied note source target) (.inr rfl)
      obtain rfl | rfl := Nat.le_one_iff_eq_zero_or_eq_one.mp (Nat.le_of_lt_succ hkept)
      · exact hcut none
      · exact hcut (some source)
  | unknown status rest h => exact ofFields_unknown status rest h

theorem status_cases (status : List UInt8) (h : ¬Unknown status) :
    (∃ (deed : DiffDeed) (note : List UInt8), status = deed.letter.toUInt8 :: note) ∨
      (∃ note, status = 'R'.toUInt8 :: note) ∨ ∃ note, status = 'C'.toUInt8 :: note := by
  obtain ⟨letter, hletter, hhead⟩ : ∃ letter ∈ DiffLine.letters,
      status.head? = some letter.toUInt8 :=
    Classical.byContradiction fun hnone =>
      h fun letter hmem hhead => hnone ⟨letter, hmem, hhead⟩
  obtain ⟨note, rfl⟩ := List.head?_eq_some_iff.mp hhead
  simp only [DiffLine.letters, List.mem_cons, List.not_mem_nil, or_false] at hletter
  rcases hletter with rfl | rfl | rfl | rfl | rfl | rfl | rfl
  · exact .inl ⟨.added, note, rfl⟩
  · exact .inl ⟨.modified, note, rfl⟩
  · exact .inl ⟨.retyped, note, rfl⟩
  · exact .inl ⟨.unmerged, note, rfl⟩
  · exact .inl ⟨.deleted, note, rfl⟩
  · exact .inr (.inl ⟨note, rfl⟩)
  · exact .inr (.inr ⟨note, rfl⟩)

/-- The tokens of a report are lines up to its end, or up to where it cannot be read on. -/
theorem split_lines (tokens : List (List UInt8)) :
    ∃ (lines : List (DiffLine (List UInt8))) (rest : List (List UInt8)),
    tokens = lines.flatMap DiffLine.tokens ++ rest ∧ (rest = [] ∨ ∃ e, Stops rest e) := by
  -- a line in front of tokens that are split already
  have hnext (line : DiffLine (List UInt8)) (more : List (List UInt8))
      (h : ∃ (lines : List (DiffLine (List UInt8))) (rest : List (List UInt8)),
        more = lines.flatMap DiffLine.tokens ++ rest ∧ (rest = [] ∨ ∃ e, Stops rest e)) :
      ∃ (lines : List (DiffLine (List UInt8))) (rest : List (List UInt8)),
        line.tokens ++ more = lines.flatMap DiffLine.tokens ++ rest ∧
        (rest = [] ∨ ∃ e, Stops rest e) := by
    obtain ⟨lines, rest, rfl, hrest⟩ := h
    exact ⟨line :: lines, rest, by rw [List.flatMap_cons, List.append_assoc], hrest⟩
  match tokens with
  | [] => exact ⟨[], [], rfl, .inl rfl⟩
  | status :: more =>
    -- the status decides the arity, and the number of tokens left if the line is whole
    by_cases hunknown : Unknown status
    · exact ⟨[], status :: more, rfl, .inr ⟨_, .unknown status more hunknown⟩⟩
    rcases status_cases status hunknown with ⟨deed, note, rfl⟩ | ⟨note, rfl⟩ | ⟨note, rfl⟩
    · match more with
      | [] => exact ⟨[], _, rfl, .inr ⟨_, .cut (.plain deed note []) 0 Nat.zero_lt_one⟩⟩
      | path :: more => exact hnext (.plain deed note path) more (split_lines more)
    · match more with
      | [] => exact ⟨[], _, rfl, .inr ⟨_, .cut (.renamed note [] []) 0 Nat.zero_lt_two⟩⟩
      | [source] => exact ⟨[], _, rfl, .inr ⟨_, .cut (.renamed note source []) 1 Nat.one_lt_two⟩⟩
      | source :: target :: more =>
        exact hnext (.renamed note source target) more (split_lines more)
    · match more with
      | [] => exact ⟨[], _, rfl, .inr ⟨_, .cut (.copied note [] []) 0 Nat.zero_lt_two⟩⟩
      | [source] => exact ⟨[], _, rfl, .inr ⟨_, .cut (.copied note source []) 1 Nat.one_lt_two⟩⟩
      | source :: target :: more =>
        exact hnext (.copied note source target) more (split_lines more)
termination_by tokens.length

theorem mem_textTokens (line : DiffLine String) (h : line.Writable) (token : List UInt8)
    (hmem : token ∈ line.textTokens) : token ≠ [] ∧ 0 ∉ token := by
  unfold DiffLine.textTokens DiffLine.tokens at hmem
  rw [DiffLine.status_map, DiffLine.paths_map, List.mem_cons, List.mem_map] at hmem
  rcases hmem with rfl | ⟨path, hpath, rfl⟩
  · have hletters : DiffLine.letters.all fun letter => (0 : UInt8) ≠ letter.toUInt8 := rfl
    refine ⟨List.cons_ne_nil _ _, fun hzero => ?_⟩
    rcases List.mem_cons.mp hzero with heq | hnote
    · exact of_decide_eq_true (List.all_eq_true.mp hletters _ (letter_mem line)) heq
    · exact h.note hnote
  · obtain ⟨hne, hzero⟩ := h.path path hpath
    exact ⟨Text.toUTF8_ne_nil path hne, Text.zero_notMem_toUTF8 path hzero⟩

theorem tokens_report (lines : List (DiffLine String)) (h : ∀ line ∈ lines, line.Writable) :
    tokens (DiffLine.report lines) = lines.flatMap DiffLine.textTokens := by
  have hgood (token : List UInt8) (hmem : token ∈ lines.flatMap DiffLine.textTokens) :
      token ≠ [] ∧ 0 ∉ token := by
    obtain ⟨line, hline, htoken⟩ := List.mem_flatMap.mp hmem
    exact mem_textTokens line (h line hline) token htoken
  unfold tokens DiffLine.report
  rw [Text.splitOn_ended 0 _ fun token hmem => (hgood token hmem).2, List.filter_append,
    List.filter_eq_self.mpr fun token hmem => by simpa using (hgood token hmem).1]
  exact List.append_nil _

section

variable (bytes : ByteArray) (lines : List (DiffLine (List UInt8)))

theorem parse_of_lines (h : tokens bytes = lines.flatMap DiffLine.tokens) :
    parse bytes = .ok (lines.map fun line => (line.map Text.read).entry) := by
  unfold parse
  rw [fields_eq, h, ← List.append_nil (lines.flatMap _), ofFields_lines]
  exact congrArg Except.ok (List.append_nil _)

theorem parse_of_stops (rest : List (List UInt8)) (e : IndexError)
    (h : tokens bytes = lines.flatMap DiffLine.tokens ++ rest) (hrest : Stops rest e) :
    parse bytes = .error e := by
  unfold parse
  rw [fields_eq, h, ofFields_lines, hrest.ofFields_eq]
  rfl

end

theorem parse_lines (lines : List (DiffLine String)) (h : ∀ line ∈ lines, line.Writable) :
    parse (DiffLine.report lines) = .ok (lines.map DiffLine.entry) := by
  have hlines : lines.flatMap DiffLine.textTokens =
      (lines.map (·.map (·.toUTF8.data.toList))).flatMap DiffLine.tokens := by
    rw [List.flatMap_map]
    rfl
  have hentry (line : DiffLine String) :
      ((line.map (·.toUTF8.data.toList)).map Text.read).entry = line.entry := by
    cases line <;> simp only [DiffLine.map, Text.read_toUTF8]
  rw [parse_of_lines _ _ ((tokens_report lines h).trans hlines), List.map_map]
  exact congrArg Except.ok (List.map_congr_left fun line _ => hentry line)

/-- A report of lines is read as their entries. A report is read if and only if its tokens split
into lines, and gives an error if and only if it stops within a line or goes on with a token that
starts with no letter of the grammar. -/
theorem parse_grammar :
    (∀ lines : List (DiffLine String), (∀ line ∈ lines, line.Writable) →
      parse (DiffLine.report lines) = .ok (lines.map DiffLine.entry)) ∧
    ∀ bytes : ByteArray,
      (∀ entries, parse bytes = .ok entries ↔ ∃ lines : List (DiffLine (List UInt8)),
        tokens bytes = lines.flatMap DiffLine.tokens ∧
          entries = lines.map fun line => (line.map Text.read).entry) ∧
      ∀ e, parse bytes = .error e ↔
        ∃ (lines : List (DiffLine (List UInt8))) (rest : List (List UInt8)),
          tokens bytes = lines.flatMap DiffLine.tokens ++ rest ∧ Stops rest e := by
  -- both directions follow from the split: lines up to the end are read, and the rest is an error
  refine ⟨parse_lines, fun bytes => ⟨fun entries => ⟨fun hparse => ?_, ?_⟩,
    fun e => ⟨fun hparse => ?_, ?_⟩⟩⟩
  · obtain ⟨lines, rest, htokens, rfl | ⟨e, hrest⟩⟩ := split_lines (tokens bytes)
    · rw [List.append_nil] at htokens
      rw [parse_of_lines bytes lines htokens] at hparse
      exact ⟨lines, htokens, (Except.ok.inj hparse).symm⟩
    · rw [parse_of_stops bytes lines rest e htokens hrest] at hparse
      cases hparse
  · rintro ⟨lines, htokens, rfl⟩
    exact parse_of_lines bytes lines htokens
  · obtain ⟨lines, rest, htokens, rfl | ⟨e', hrest⟩⟩ := split_lines (tokens bytes)
    · rw [List.append_nil] at htokens
      rw [parse_of_lines bytes lines htokens] at hparse
      cases hparse
    · rw [parse_of_stops bytes lines rest e' htokens hrest] at hparse
      cases hparse
      exact ⟨lines, rest, htokens, hrest⟩
  · rintro ⟨lines, rest, htokens, hrest⟩
    exact parse_of_stops bytes lines rest e htokens hrest

/-- Paths are never taken for statuses, nor statuses for paths. -/
theorem parse_lookalikes :
    parse (DiffLine.report [.plain .modified [] "R100", .renamed [48, 55, 53] "A" "D",
      .plain .deleted [] "C", .copied [49] "T" "U"]) =
        .ok [.modified "R100", .renamed "A" "D", .deleted "C", .added "U"] ∧
      ∀ entries, parse ⟨#[82, 48, 57, 48, 0, 65, 0]⟩ ≠ .ok entries := by
  obtain ⟨hlines, hbytes⟩ := parse_grammar
  refine ⟨hlines _ fun line hline => ?_, fun entries hparse => ?_⟩
  · simp only [List.mem_cons, List.not_mem_nil, or_false] at hline
    rcases hline with rfl | rfl | rfl | rfl
    all_goals exact ⟨by decide, by decide +kernel⟩
  · have hstop := ((hbytes ⟨#[82, 48, 57, 48, 0, 65, 0]⟩).2 _).mpr
      ⟨[], _, rfl, .cut (.renamed [48, 57, 48] [65] []) 1 Nat.one_lt_two⟩
    rw [hparse] at hstop
    cases hstop

end DiffEntry

end CodeIndex
