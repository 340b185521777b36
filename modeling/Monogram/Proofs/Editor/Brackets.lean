import Monogram.Editor.Brackets
import Monogram.Proofs.Token.Tiling

/-! # Open brackets and tokens

An entry is cut into pieces apart from tokens, and a piece of it may hold many tokens.  Strings, comments
and brackets are the same in both, so that the brackets open at the end of an entry are those that its
tokens open and do not close.

* `Piece.depth?` — what a piece of a text opens or closes.
* `entryDepth?_cons` — an entry goes on behind the first piece of its text as it does behind its own.
* `entryDepth?_eq_foldlM` — the depth of an entry is that of its tokens and diagnostics.
* `openBrackets?_ofText` — the open brackets of an entry without header lines.
-/

namespace Monogram

/-! ## Brackets among tokens -/

/-- The symbols that open a bracket. -/
def Symbol.opens : Symbol → Bool
  | .openParen | .openBracket | .openBrace => true
  | _ => false

/-- The symbols that close a bracket. -/
def Symbol.closes : Symbol → Bool
  | .closeParen | .closeBracket | .closeBrace => true
  | _ => false

/-- Whether a token of this kind opens a bracket. -/
def Token.Kind.opens : Token.Kind → Bool
  | .symbol s => s.opens
  | _ => false

/-- Whether a token of this kind closes a bracket. -/
def Token.Kind.closes : Token.Kind → Bool
  | .symbol s => s.closes
  | _ => false

/-- Opening tokens less closing tokens behind one of this kind. -/
def Token.Kind.depth (kind : Token.Kind) (depth : Int) : Int :=
  if kind.opens then depth + 1 else if kind.closes then depth - 1 else depth

@[simp] theorem Token.Kind.depth_ofWord (word : List Char) (depth : Int) :
    (Token.Kind.ofWord word).depth depth = depth := by
  unfold ofWord
  split
  · cases Keyword.ofLetter? _ <;> rfl
  · rfl

theorem Token.Kind.depth_eq (kind : Token.Kind) (depth : Int) : kind.depth depth
    = depth + (if kind.opens then 1 else 0) - (if kind.closes then 1 else 0) := by
  have apart : kind.opens = true → kind.closes = false := by
    cases kind with
    | symbol s => cases s <;> decide
    | _ => exact fun _ => rfl
  unfold Token.Kind.depth
  split
  next opens => simp [apart opens]
  next => split <;> simp

/-- Opening tokens less closing tokens behind a piece; none when it is a string without an end. -/
def Piece.depth? (piece : Piece) (depth : Int) : Option Int :=
  match piece with
  | .gap | .unexpected => some depth
  | .token kind => some (kind.depth depth)
  | .unterminated => none

/-! ## Characters between brackets -/

/-- The characters that are not plain. -/
def entryMarks : List Char :=
  [' ', '\t', '\r', '\n', '\x0c', '(', '[', '\x7b', ')', ']', '\x7d', '"', '/']

theorem isPlain_eq_false_iff {c : Char} : isPlain c = false ↔ c ∈ entryMarks := by
  simp only [isPlain, isGap, isOpening, isClosing, entryMarks, Bool.not_eq_false', Bool.or_eq_true,
    decide_eq_true_eq, List.mem_cons, List.not_mem_nil, or_false, or_assoc]

/-- Characters of a class without marks are plain. -/
theorem isPlain_of_class {p : Char → Bool} {c : Char} (holds : p c = true)
    (apart : entryMarks.any p = false) : isPlain c = true := by
  rw [← Bool.not_eq_false, isPlain_eq_false_iff]
  exact fun mark => List.any_eq_false.1 apart c mark holds

theorem isPlain_of_isDigit {c : Char} (digit : c.isDigit = true) : isPlain c = true :=
  isPlain_of_class digit (by decide)

theorem isPlain_of_isAlphanum {c : Char} (alphanum : c.isAlphanum = true) : isPlain c = true :=
  isPlain_of_class alphanum (by decide)

section Plain

variable {depth : Int} {c : Char} {rest : List Char}

theorem entryDepth?_of_piece {piece : EntryPiece} {extent : Nat}
    (found : entryPieceAt c rest = (piece, extent)) : entryDepth? depth (c :: rest)
      = (piece.depth? depth).bind fun depth => entryDepth? depth (rest.drop extent) := by
  rw [entryDepth?, found]
  dsimp only
  cases piece.depth? depth <;> rfl

theorem entryPieceAt_plain (plain : isPlain c = true) :
    entryPieceAt c rest = (.plain, (rest.takeWhile isPlain).length) := by
  have plain : isGap c = false ∧ isOpening c = false ∧ isClosing c = false ∧ c ≠ '"' ∧ c ≠ '/' := by
    simpa [isPlain, and_assoc] using plain
  simp [entryPieceAt, plain]

theorem entryDepth?_dropWhile_plain (depth : Int) (text : List Char) :
    entryDepth? depth (text.dropWhile isPlain) = entryDepth? depth text := by
  cases text with
  | nil => rfl
  | cons c rest =>
    by_cases plain : isPlain c
    · rw [List.dropWhile_cons_of_pos plain, entryDepth?_of_piece (entryPieceAt_plain plain),
        (cut_takeWhile _ _).2]
      rfl
    · rw [List.dropWhile_cons_of_neg plain]

/-- Where a piece of plain characters ends does not matter. -/
theorem entryDepth?_append_plain {front : List Char} (plain : ∀ c ∈ front, isPlain c = true)
    (back : List Char) : entryDepth? depth (front ++ back) = entryDepth? depth back := by
  rw [← entryDepth?_dropWhile_plain, List.dropWhile_append_of_pos plain, entryDepth?_dropWhile_plain]

theorem entryDepth?_cons_plain (plain : isPlain c = true) :
    entryDepth? depth (c :: rest) = entryDepth? depth rest := by
  have single : ∀ d ∈ [c], isPlain d = true := by simpa using plain
  exact entryDepth?_append_plain single rest

theorem entryDepth?_drop_plain (first : isPlain c = true) {extent : Nat}
    (others : ∀ d ∈ rest.take extent, isPlain d = true) :
    entryDepth? depth (c :: rest) = entryDepth? depth (rest.drop extent) := by
  have plain : ∀ d ∈ c :: rest.take extent, isPlain d = true := List.forall_mem_cons.2 ⟨first, others⟩
  rw [← entryDepth?_append_plain plain (rest.drop extent), List.cons_append, List.take_append_drop]

theorem entryPieceAt_slash (rest : List Char) : entryPieceAt '/' rest
    = if rest.head? = some '/' then (.comment, (rest.takeWhile (· != '\n')).length) else (.slash, 0) :=
  rfl

theorem entryPieceAt_quote (rest : List Char) : entryPieceAt '"' rest
    = if (rest.takeWhile (· != '"')).length < rest.length
      then (.string, (rest.takeWhile (· != '"')).length + 1)
      else (.unclosed, (rest.takeWhile (· != '"')).length) :=
  rfl

end Plain

/-! ## One piece of text -/

section Pieces

variable {c : Char} {rest : List Char} {s : Symbol} {extent : Nat}

theorem numberExtent_plain (rest : List Char) :
    ∀ d ∈ rest.take (numberExtent rest), isPlain d = true := by
  have digits (text : List Char) :
      ∀ d ∈ text.take (text.takeWhile Char.isDigit).length, isPlain d = true := fun d member =>
    isPlain_of_isDigit (List.mem_takeWhile_imp ((cut_takeWhile _ text).1 ▸ member))
  fun_cases numberExtent rest with
  | case1 whole d more point digit =>
    have cut : rest.take (whole + 2 + (more.takeWhile Char.isDigit).length) = rest.take whole
        ++ '.' :: d :: more.take (more.takeWhile Char.isDigit).length := by
      rw [Nat.add_assoc, List.take_add, point, Nat.add_comm 2]
      rfl
    rw [cut]
    refine List.forall_mem_append.2 ⟨digits rest, ?_⟩
    exact List.forall_mem_cons.2 ⟨by decide, List.forall_mem_cons.2
      ⟨isPlain_of_isDigit digit, digits more⟩⟩
  | case2 | case3 => exact digits rest

theorem doubleSymbol?_plain {d : Char} (found : doubleSymbol? c d = some s) :
    isPlain c = true ∧ isPlain d = true ∧ s.opens = false ∧ s.closes = false := by
  unfold doubleSymbol? at found
  split at found <;> cases found <;> decide

theorem symbolAt?_eq_some (found : symbolAt? c rest = some (s, extent)) :
    (∃ d, rest.head? = some d ∧ doubleSymbol? c d = some s ∧ extent = 1)
      ∨ singleSymbol? c = some s ∧ extent = 0 := by
  unfold symbolAt? at found
  split at found
  next double =>
    obtain ⟨d, head, double⟩ := Option.bind_eq_some_iff.1 double
    cases found
    exact .inl ⟨d, head, double, rfl⟩
  next =>
    obtain ⟨s, single, same⟩ := Option.map_eq_some_iff.1 found
    cases same
    exact .inr ⟨single, rfl⟩

theorem symbolAt?_eq_none (none : symbolAt? c rest = none) : singleSymbol? c = Option.none := by
  unfold symbolAt? at none
  split at none
  · cases none
  · simpa using none

theorem isPlain_of_unsymbolic (blank : isGap c = false) (quote : c ≠ '"')
    (unsymbolic : singleSymbol? c = none) : isPlain c = true := by
  refine isPlain_of_class (p := fun d => !isGap d && d != '"' && (singleSymbol? d).isNone) ?_ (by decide)
  simp [blank, quote, unsymbolic]

/-- A symbol of one character counts in an entry as it does among tokens. -/
theorem entryDepth?_singleSymbol (depth : Int) (single : singleSymbol? c = some s)
    (bare : c = '/' → rest.head? ≠ some '/') :
    entryDepth? depth (c :: rest) = entryDepth? ((Token.Kind.symbol s).depth depth) rest := by
  unfold singleSymbol? at single
  -- Brackets and the slash are pieces of the entry as well; all other symbols are plain.
  split at single
  case h_1 | h_2 | h_3 | h_4 | h_5 | h_6 =>
    cases single
    exact entryDepth?_of_piece rfl
  case h_13 =>
    cases single
    exact entryDepth?_of_piece ((entryPieceAt_slash rest).trans (if_neg (bare rfl)))
  case h_21 => cases single
  all_goals
    cases single
    exact entryDepth?_cons_plain (by decide)

/-- An entry goes on behind the first piece of its text as it does behind its own. -/
theorem entryDepth?_cons (depth : Int) (c : Char) (rest : List Char) :
    entryDepth? depth (c :: rest) = ((pieceAt c rest).1.depth? depth).bind fun depth =>
      entryDepth? depth (rest.drop (pieceAt c rest).2) := by
  -- Blanks, comments and strings are pieces of the entry as well.  What else a piece holds is plain,
  -- and the piece of the entry may go beyond it.
  fun_cases pieceAt c rest with
  | case1 blank => exact entryDepth?_of_piece (if_pos blank)
  | case2 blank slashes =>
    obtain ⟨rfl, second⟩ : c = '/' ∧ rest.head? = some '/' := by simpa using slashes
    exact entryDepth?_of_piece ((entryPieceAt_slash rest).trans (if_pos second))
  | case3 _ _ digit => exact entryDepth?_drop_plain (isPlain_of_isDigit digit) (numberExtent_plain rest)
  | case4 _ _ _ alpha extent =>
    have alphanum : c.isAlphanum = true := by rw [Char.isAlphanum, alpha, Bool.true_or]
    have others : ∀ d ∈ rest.take extent, isPlain d = true := fun d member =>
      isPlain_of_isAlphanum (List.mem_takeWhile_imp ((cut_takeWhile _ rest).1 ▸ member))
    rw [entryDepth?_drop_plain (isPlain_of_isAlphanum alphanum) others]
    simp [Piece.depth?]
  | case5 _ _ _ _ quote body closed =>
    subst quote
    exact entryDepth?_of_piece ((entryPieceAt_quote rest).trans (if_pos closed))
  | case6 _ _ _ _ quote body unclosed =>
    subst quote
    exact entryDepth?_of_piece ((entryPieceAt_quote rest).trans (if_neg unclosed))
  | case7 _ slash _ _ _ s extent found =>
    obtain ⟨d, head, double, rfl⟩ | ⟨single, rfl⟩ := symbolAt?_eq_some found
    · obtain ⟨first, second, opens, closes⟩ := doubleSymbol?_plain double
      obtain ⟨more, rfl⟩ := List.head?_eq_some_iff.1 head
      have same : (Token.Kind.symbol s).depth depth = depth := by
        simp [Token.Kind.depth, Token.Kind.opens, Token.Kind.closes, opens, closes]
      rw [entryDepth?_cons_plain first, entryDepth?_cons_plain second]
      simp [Piece.depth?, same]
    · have bare : c = '/' → rest.head? ≠ some '/' := fun here => by simpa [here] using slash
      exact entryDepth?_singleSymbol depth single bare
  | case8 blank _ _ _ quote none =>
    have blank : isGap c = false := by simpa using blank
    exact entryDepth?_cons_plain (isPlain_of_unsymbolic blank quote (symbolAt?_eq_none none))

end Pieces

/-! ## A whole entry -/

namespace Scan

/-- Opening tokens less closing tokens behind an item; none when it is a string without an end. -/
def Item.depth? (depth : Int) : Item → Option Int
  | .token t => some (t.kind.depth depth)
  | .diagnostic d => if d.cause = .unterminatedString then none else some depth

theorem foldlM_item? (piece : Piece) (lexeme : List Char) (p : Place) (depth : Int) :
    (piece.item? lexeme p).toList.foldlM Item.depth? depth = piece.depth? depth := by
  cases piece <;> simp [Piece.item?, Piece.depth?, Item.depth?]

end Scan

/-- The depth of an entry is that of its tokens and diagnostics. -/
theorem entryDepth?_eq_foldlM (depth : Int) (p : Place) (text : List Char) :
    entryDepth? depth text = (Scan.items p text).foldlM Scan.Item.depth? depth := by
  fun_induction Scan.items p text generalizing depth with
  | case1 => rw [entryDepth?]; rfl
  | case2 p c rest piece extent found lexeme ih =>
    rw [entryDepth?_cons, found, List.foldlM_append, Scan.foldlM_item?]
    exact Option.bind_congr fun depth _ => ih depth

namespace Scan

/-- How many tokens open a bracket. -/
def opening (scan : Scan) : Nat := scan.tokens.countP (·.kind.opens)

/-- How many tokens close a bracket. -/
def closing (scan : Scan) : Nat := scan.tokens.countP (·.kind.closes)

theorem foldlM_depth?_eq_none_iff (items : List Item) (depth : Int) :
    items.foldlM Item.depth? depth = none
      ↔ ∃ d ∈ items.filterMap Item.diagnostic?, d.cause = .unterminatedString := by
  induction items generalizing depth with
  | nil => simp
  | cons item items ih =>
    cases item with
    | token t => exact ih _
    | diagnostic d =>
      by_cases unterminated : d.cause = .unterminatedString
      · simp [Item.depth?, Item.diagnostic?, unterminated]
      · simp [Item.depth?, Item.diagnostic?, unterminated, ih]

theorem foldlM_depth?_eq_some (items : List Item) {depth final : Int}
    (ends : items.foldlM Item.depth? depth = some final) :
    final = depth + (items.filterMap Item.token?).countP (·.kind.opens)
      - (items.filterMap Item.token?).countP (·.kind.closes) := by
  induction items generalizing depth with
  | nil => simpa using (Option.some.inj ends).symm
  | cons item items ih =>
    cases item with
    | token t =>
      have step : final = t.kind.depth depth + _ - _ := ih ends
      simp only [step, Token.Kind.depth_eq, List.filterMap_cons, Item.token?, List.countP_cons]
      split <;> split <;> simp <;> omega
    | diagnostic d =>
      by_cases unterminated : d.cause = .unterminatedString
      · simp [Item.depth?, unterminated] at ends
      · exact ih (by simpa [Item.depth?, unterminated] using ends)

theorem preambleLength_of_not_prefix {text : List Char} (command : ¬ "#!".toList <+: text)
    (language : ¬ "#alphabet".toList <+: text) : preambleLength text = 0 := by
  have unmarked {mark : List Char} (other : ¬ mark <+: text) : headerLength mark text = 0 :=
    if_neg (by rwa [List.isPrefixOf_iff_prefix])
  rw [preambleLength, unmarked command, List.drop_zero, unmarked language]

end Scan

/-- The end of an entry without header lines: a string is open when the scan finds one without an end,
and otherwise as many brackets as its tokens open more than they close, but no fewer than none. -/
theorem openBrackets?_ofText (entry : String) (command : ¬ "#!".toList <+: entry.toList)
    (language : ¬ "#alphabet".toList <+: entry.toList) :
    (openBrackets? entry = none
        ↔ ∃ d ∈ (Scan.ofText entry).diagnostics, d.cause = .unterminatedString)
      ∧ ((∀ d ∈ (Scan.ofText entry).diagnostics, d.cause ≠ .unterminatedString) →
        ∃ depth : Nat, openBrackets? entry = some depth ∧ (depth : Int)
          = max 0 ((Scan.ofText entry).opening - (Scan.ofText entry).closing : Int)) := by
  have bare := Scan.preambleLength_of_not_prefix command language
  have scanned : entryDepth? 0 entry.toList = _ := entryDepth?_eq_foldlM 0 ⟨0, 1⟩ entry.toList
  have shut := Scan.foldlM_depth?_eq_none_iff (Scan.items ⟨0, 1⟩ entry.toList) 0
  rw [← scanned] at shut
  have tokens : (Scan.ofText entry).tokens = (Scan.items ⟨0, 1⟩ entry.toList).filterMap Scan.Item.token? := by
    simp [Scan.ofText, bare]
  have diagnostics : (Scan.ofText entry).diagnostics
      = (Scan.items ⟨0, 1⟩ entry.toList).filterMap Scan.Item.diagnostic? := by
    simp [Scan.ofText, bare]
  rw [diagnostics, openBrackets?, Option.map_eq_none_iff]
  refine ⟨shut, fun finished => ?_⟩
  obtain ⟨depth, ends⟩ : ∃ depth, entryDepth? 0 entry.toList = some depth := by
    rw [← Option.ne_none_iff_exists', ne_eq, shut]
    rintro ⟨d, member, unterminated⟩
    exact finished d member unterminated
  have counted := Scan.foldlM_depth?_eq_some _ (scanned ▸ ends)
  refine ⟨depth.toNat, by rw [ends]; rfl, ?_⟩
  rw [Scan.opening, Scan.closing, tokens, counted, Int.toNat_eq_max, Int.max_comm, Int.zero_add]

/-- A line in which all closing brackets stand in a string or a comment. -/
def unfinishedLine : String := "z.o(\")\" [1 // ]"

theorem openBrackets?_ofText_unfinishedLine : ¬ "#!".toList <+: unfinishedLine.toList
    ∧ ¬ "#alphabet".toList <+: unfinishedLine.toList ∧ openBrackets? unfinishedLine = some 2 := by
  have command : ¬ "#!".toList <+: unfinishedLine.toList := by decide
  have language : ¬ "#alphabet".toList <+: unfinishedLine.toList := by decide
  have silent : (Scan.ofText unfinishedLine).diagnostics = [] := by decide +kernel
  have counts : (Scan.ofText unfinishedLine).opening = 2 ∧ (Scan.ofText unfinishedLine).closing = 0 := by
    decide +kernel
  obtain ⟨-, counted⟩ := openBrackets?_ofText unfinishedLine command language
  rw [silent, counts.1, counts.2] at counted
  obtain ⟨depth, ends, same⟩ := counted fun d member => (List.not_mem_nil member).elim
  obtain rfl : depth = 2 := by omega
  exact ⟨command, language, ends⟩

end Monogram
