import Mathlib
import Monogram.Proofs.Token.Tiling

/-! # Printed tokens are read back

Lexemes that are written one behind the other, with a blank at least between them, are cut apart again
into the tokens that they are, whatever blanks and comments stand between them.

* `Lexeme`, `Separator` — what may be written.
* `printed` — the text of lexemes with separators between them.
* `Scan.ofText_printed` — the tokens of a printed text are its lexemes.
-/

namespace Monogram

/-! ## What may be written -/

/-- The characters of a bracket, separator or operator. -/
def Symbol.text : Symbol → List Char
  | .openParen => ['('] | .closeParen => [')']
  | .openBrace => ['\x7b'] | .closeBrace => ['\x7d']
  | .openBracket => ['['] | .closeBracket => [']']
  | .comma => [','] | .colon => [':'] | .dot => ['.']
  | .plus => ['+'] | .minus => ['-'] | .star => ['*'] | .slash => ['/'] | .percent => ['%']
  | .caret => ['^'] | .at => ['@']
  | .bang => ['!'] | .bangEqual => ['!', '=']
  | .equal => ['='] | .equalEqual => ['=', '=']
  | .less => ['<'] | .lessEqual => ['<', '=']
  | .greater => ['>'] | .greaterEqual => ['>', '=']
  | .andAnd => ['&', '&'] | .orOr => ['|', '|']

/-- One digit or more. -/
structure Digits where
  first : Char
  others : List Char
  digit : ∀ c ∈ first :: others, c.isDigit = true

/-- Something that is written as one token. -/
inductive Lexeme where
  | symbol (s : Symbol)
  | whole (digits : Digits)
  | decimal (digits fraction : Digits)
  | string (body : List Char) (unquoted : '"' ∉ body)
  | word (first : Char) (others : List Char) (letter : first.isAlpha = true)
      (alphanum : ∀ c ∈ others, c.isAlphanum = true)

/-- The characters of a lexeme. -/
def Lexeme.text : Lexeme → List Char
  | .symbol s => s.text
  | .whole digits => digits.first :: digits.others
  | .decimal digits fraction =>
    digits.first :: (digits.others ++ '.' :: fraction.first :: fraction.others)
  | .string body _ => '"' :: (body ++ ['"'])
  | .word first others _ _ => first :: others

/-- The token of a lexeme: its text, its kind, and the contents of a string. -/
def Lexeme.IsToken (l : Lexeme) (t : Token) : Prop :=
  t.lexeme = String.ofList l.text ∧
    match l with
    | .symbol s => t.kind = .symbol s
    | .whole _ | .decimal _ _ => t.kind = .number
    | .string body _ => t.kind = .string ∧ t.string? = some (String.ofList body)
    | .word first others _ _ =>
      (∀ k : Keyword, t.kind = .keyword k ↔ first :: others = [k.letter])
        ∧ ((∀ k : Keyword, first :: others ≠ [k.letter]) → t.kind = .identifier)

/-- Space, tab, carriage return, line feed and form feed. -/
def blanks : List Char := [' ', '\t', '\r', '\n', '\x0c']

/-- A blank, or a comment and the line break behind it. -/
inductive Filler where
  | blank (c : Char) (member : c ∈ blanks)
  | comment (body : List Char) (single : '\n' ∉ body)

/-- The characters of a filler. -/
def Filler.text : Filler → List Char
  | .blank c _ => [c]
  | .comment body _ => '/' :: '/' :: (body ++ ['\n'])

/-- What stands between two lexemes: a blank, and whatever blanks and comments. -/
structure Separator where
  blank : Char
  member : blank ∈ blanks
  fillers : List Filler

/-- The characters of a separator. -/
def Separator.text (gap : Separator) : List Char := gap.blank :: gap.fillers.flatMap Filler.text

/-- The lexemes one behind the other, each but the last one in front of its separator. -/
def printed : List (Lexeme × Separator) → List Char
  | [] => []
  | [(l, _)] => l.text
  | (l, gap) :: next :: others => l.text ++ (gap.text ++ printed (next :: others))

/-! ## Where a piece ends -/

/-- A token may end in front of this text. -/
def Closes (back : List Char) : Prop := ∀ c ∈ back.head?, c ∈ blanks

theorem isGap_iff {c : Char} : isGap c = true ↔ c ∈ blanks := by
  simp [isGap, blanks, or_assoc]

theorem takeWhile_front {p : Char → Bool} {front back : List Char} (all : ∀ c ∈ front, p c = true)
    (stop : ∀ c ∈ back.head?, p c = false) : (front ++ back).takeWhile p = front := by
  rw [List.takeWhile_append_of_pos all]
  cases back with
  | nil => rw [List.takeWhile_nil, List.append_nil]
  | cons c back => rw [List.takeWhile_cons, stop c rfl, if_neg Bool.false_ne_true, List.append_nil]

/-- A text in front of which a token may end starts with no character of a token. -/
theorem Closes.stops {back : List Char} (closes : Closes back) {p : Char → Bool}
    (other : blanks.any p = false) : ∀ c ∈ back.head?, p c = false :=
  fun c first => Bool.eq_false_iff.2 (List.any_eq_false.1 other c (closes c first))

theorem not_gap_of_alphanum {c : Char} (alphanum : c.isAlphanum = true) : isGap c = false := by
  have other : blanks.any Char.isAlphanum = false := by decide
  rw [Bool.eq_false_iff, Ne, isGap_iff]
  exact fun blank => List.any_eq_false.1 other c blank alphanum

theorem not_slash_of_alphanum {c : Char} (alphanum : c.isAlphanum = true) : c ≠ '/' := by
  rintro rfl
  revert alphanum
  decide

theorem not_digit_of_alpha {c : Char} (alpha : c.isAlpha = true) : c.isDigit = false := by
  rw [Bool.eq_false_iff]
  intro digit
  simp only [Char.isAlpha, Char.isUpper, Char.isLower, Char.isDigit, Bool.or_eq_true, Bool.and_eq_true,
    decide_eq_true_eq, ge_iff_le, UInt32.le_iff_toNat_le] at alpha digit
  have bounds : 'A'.val.toNat = 65 ∧ 'a'.val.toNat = 97 ∧ '9'.val.toNat = 57 := by decide
  omega

theorem Digits.alphanum (digits : Digits) :
    ∀ c ∈ digits.first :: digits.others, c.isAlphanum = true :=
  fun c member => by simp [Char.isAlphanum, digits.digit c member]

/-! ## The piece of a lexeme -/

/-- The kind of the token that a lexeme is. -/
def Lexeme.kind : Lexeme → Token.Kind
  | .symbol s => .symbol s
  | .whole _ | .decimal _ _ => .number
  | .string _ _ => .string
  | .word first others _ _ => .ofWord (first :: others)

section
variable {back : List Char}

theorem pieceAt_digit {c : Char} {rest : List Char} (digit : c.isDigit = true) :
    pieceAt c rest = (.token .number, numberExtent rest) := by
  have alphanum : c.isAlphanum = true := by simp [Char.isAlphanum, digit]
  simp [pieceAt, not_gap_of_alphanum alphanum, not_slash_of_alphanum alphanum, digit]

theorem numberExtent_whole {digits : List Char} (all : ∀ c ∈ digits, c.isDigit = true)
    (closes : Closes back) : numberExtent (digits ++ back) = digits.length := by
  have front := takeWhile_front all (closes.stops (p := Char.isDigit) (by decide))
  simp only [numberExtent, front, List.drop_left]
  split
  · next d more => exact absurd (closes '.' rfl) (by decide)
  · rfl

theorem numberExtent_decimal {digits : List Char} (fraction : Digits)
    (all : ∀ c ∈ digits, c.isDigit = true) (closes : Closes back) :
    numberExtent (digits ++ '.' :: fraction.first :: (fraction.others ++ back))
      = digits.length + 2 + fraction.others.length := by
  have front : (digits ++ '.' :: fraction.first :: (fraction.others ++ back)).takeWhile Char.isDigit
      = digits := takeWhile_front all (by rintro c ⟨⟩; decide)
  have tenths := takeWhile_front (fun c member => fraction.digit c (List.mem_cons_of_mem _ member))
    (closes.stops (p := Char.isDigit) (by decide))
  simp only [numberExtent, front, List.drop_left, fraction.digit _ List.mem_cons_self, if_true, tenths]

theorem pieceAt_string {body : List Char} (unquoted : '"' ∉ body) :
    pieceAt '"' (body ++ '"' :: back) = (.token .string, body.length + 1) := by
  have front : (body ++ '"' :: back).takeWhile (· != '"') = body :=
    takeWhile_front (fun c member => bne_iff_ne.2 fun same => unquoted (same ▸ member))
      (by rintro c ⟨⟩; decide)
  simp [pieceAt, front, isGap]

theorem pieceAt_word {first : Char} {others : List Char} (letter : first.isAlpha = true)
    (alphanum : ∀ c ∈ others, c.isAlphanum = true) (closes : Closes back) :
    pieceAt first (others ++ back) = (.token (.ofWord (first :: others)), others.length) := by
  have front := takeWhile_front alphanum (closes.stops (p := Char.isAlphanum) (by decide))
  have first_alphanum : first.isAlphanum = true := by simp [Char.isAlphanum, letter]
  simp [pieceAt, not_gap_of_alphanum first_alphanum, not_slash_of_alphanum first_alphanum,
    not_digit_of_alpha letter, letter, front]

theorem pieceAt_symbol (s : Symbol) (closes : Closes back) :
    ∃ c rest, s.text = c :: rest ∧ pieceAt c (rest ++ back) = (.token (.symbol s), rest.length) := by
  cases back with
  | nil => cases s <;> exact ⟨_, _, rfl, rfl⟩
  | cons d back =>
    have blank := closes d rfl
    simp only [blanks, List.mem_cons, List.not_mem_nil, or_false] at blank
    rcases blank with rfl | rfl | rfl | rfl | rfl <;> cases s <;> exact ⟨_, _, rfl, rfl⟩

/-- A lexeme in front of a blank, or of nothing, is one piece. -/
theorem Lexeme.pieceAt_text (l : Lexeme) (closes : Closes back) :
    ∃ c rest, l.text = c :: rest ∧ pieceAt c (rest ++ back) = (.token l.kind, rest.length) := by
  cases l with
  | symbol s => exact pieceAt_symbol s closes
  | whole digits =>
    refine ⟨_, _, rfl, ?_⟩
    rw [pieceAt_digit (digits.digit _ List.mem_cons_self),
      numberExtent_whole (fun c member => digits.digit c (List.mem_cons_of_mem _ member)) closes]
    rfl
  | decimal digits fraction =>
    refine ⟨_, _, rfl, ?_⟩
    rw [pieceAt_digit (digits.digit _ List.mem_cons_self), List.append_assoc, List.cons_append,
      List.cons_append, numberExtent_decimal fraction
        (fun c member => digits.digit c (List.mem_cons_of_mem _ member)) closes]
    simp only [Lexeme.kind, List.length_append, List.length_cons, Nat.add_comm 2, Nat.add_assoc]
  | string body unquoted =>
    refine ⟨_, _, rfl, ?_⟩
    rw [List.append_assoc, List.singleton_append, pieceAt_string unquoted, List.length_append]
    rfl
  | word first others letter alphanum => exact ⟨_, _, rfl, pieceAt_word letter alphanum closes⟩

end

/-! ## The token of a lexeme -/

theorem Keyword.ofLetter?_eq_some {c : Char} {k : Keyword} :
    Keyword.ofLetter? c = some k ↔ c = k.letter := by
  constructor
  · intro found
    exact (beq_iff_eq.1 (List.find?_some found :)).symm
  · rintro rfl
    exact Keyword.ofLetter?_letter k

theorem Token.Kind.ofWord_eq_keyword {word : List Char} {k : Keyword} :
    ofWord word = .keyword k ↔ word = [k.letter] := by
  unfold ofWord
  split
  · next c =>
    rw [List.cons.injEq, ← Keyword.ofLetter?_eq_some]
    cases Keyword.ofLetter? c <;> simp
  · next other =>
    refine ⟨nofun, fun single => absurd single (other _)⟩

theorem Token.Kind.ofWord_eq_identifier {word : List Char} (other : ∀ k : Keyword, word ≠ [k.letter]) :
    ofWord word = .identifier := by
  unfold ofWord
  split
  · next c =>
    cases found : Keyword.ofLetter? c with
    | none => rfl
    | some k => exact absurd (congrArg ([·]) (Keyword.ofLetter?_eq_some.1 found)) (other k)
  · rfl

/-- A string without its quotes. -/
theorem Token.unquote_quoted {body : List Char} (unquoted : '"' ∉ body) :
    unquote ('"' :: (body ++ ['"'])) = body := by
  have kept (text : List Char) (unquoted : '"' ∉ text) : text.dropWhile (· == '"') = text := by
    cases text with
    | nil => rfl
    | cons c rest =>
      rw [List.dropWhile_cons_of_neg]
      exact fun same => unquoted (beq_iff_eq.1 same ▸ List.mem_cons_self)
  cases body with
  | nil => rfl
  | cons c rest =>
    have front : (c :: rest ++ ['"']).dropWhile (· == '"') = c :: rest ++ ['"'] := by
      rw [List.cons_append, List.dropWhile_cons_of_neg]
      exact fun same => unquoted (beq_iff_eq.1 same ▸ List.mem_cons_self)
    rw [unquote, List.dropWhile_cons_of_pos (by decide), front, List.reverse_append,
      List.reverse_singleton, List.singleton_append, List.dropWhile_cons_of_pos (by decide),
      kept _ (fun member => unquoted (List.mem_reverse.1 member)), List.reverse_reverse]

theorem Lexeme.isToken (l : Lexeme) (span : Span) (line : Nat) :
    l.IsToken ⟨l.kind, String.ofList l.text, span, line⟩ := by
  refine ⟨rfl, ?_⟩
  cases l with
  | symbol | whole | decimal => rfl
  | string body unquoted =>
    refine ⟨rfl, ?_⟩
    simp [Token.string?, Lexeme.kind, Lexeme.text, Token.unquote_quoted unquoted]
  | word first others letter alphanum =>
    exact ⟨fun k => Token.Kind.ofWord_eq_keyword, Token.Kind.ofWord_eq_identifier⟩

/-! ## The text between lexemes -/

namespace Scan

variable {p : Place} {back : List Char}

theorem items_nil : items p [] = [] := by
  rw [items]

theorem items_cons {c : Char} {rest : List Char} {piece : Piece}
    (found : pieceAt c (rest ++ back) = (piece, rest.length)) :
    items p (c :: rest ++ back)
      = (piece.item? (c :: rest) p).toList ++ items (p.after (c :: rest)) back := by
  rw [List.cons_append, items, found]
  simp only [List.take_left, List.drop_left]

/-- All blanks in a row are one piece. -/
theorem items_gap {c : Char} (gap : isGap c = true) :
    items p (c :: back)
      = items (p.after (c :: back.takeWhile isGap)) (back.dropWhile isGap) := by
  have found : pieceAt c back = (.gap, (back.takeWhile isGap).length) := by simp [pieceAt, gap]
  obtain ⟨front, behind⟩ := cut_takeWhile isGap back
  rw [items, found]
  simp only [front, behind]
  rfl

/-- A blank leaves nothing behind. -/
theorem items_blank {c : Char} (blank : c ∈ blanks) :
    items p (c :: back) = items (p.after [c]) back := by
  rw [items_gap (isGap_iff.2 blank)]
  cases back with
  | nil => rfl
  | cons d rest =>
    cases gap : isGap d with
    | true =>
      rw [items_gap gap, List.takeWhile_cons_of_pos gap, List.dropWhile_cons_of_pos gap,
        ← Place.after_append, List.singleton_append]
    | false =>
      rw [List.takeWhile_cons_of_neg (by simp [gap]), List.dropWhile_cons_of_neg (by simp [gap])]

/-- A comment and its line break leave nothing behind. -/
theorem items_comment {body : List Char} (single : '\n' ∉ body) :
    items p ('/' :: '/' :: (body ++ '\n' :: back))
      = items (p.after ('/' :: '/' :: (body ++ ['\n']))) back := by
  have front : ('/' :: body ++ '\n' :: back).takeWhile (· != '\n') = '/' :: body :=
    takeWhile_front (List.forall_mem_cons.2
      ⟨by decide, fun c member => bne_iff_ne.2 fun same => single (same ▸ member)⟩)
      (by rintro c ⟨⟩; decide)
  have slashes (rest : List Char) (second : rest.head? = some '/') :
      pieceAt '/' rest = (.gap, (rest.takeWhile (· != '\n')).length) := by
    simp [pieceAt, isGap, second]
  have found : pieceAt '/' ('/' :: body ++ '\n' :: back) = (.gap, ('/' :: body).length) := by
    rw [slashes _ rfl, front]
  have comment := items_cons (p := p) found
  rw [List.cons_append, List.cons_append] at comment
  rw [comment]
  change items _ ('\n' :: back) = _
  rw [items_blank (by decide), ← Place.after_append]
  rfl

theorem items_filler (filler : Filler) :
    items p (filler.text ++ back) = items (p.after filler.text) back := by
  cases filler with
  | blank c member => exact items_blank member
  | comment body single =>
    rw [Filler.text, List.cons_append, List.cons_append, List.append_assoc]
    exact items_comment single

theorem items_fillers (fillers : List Filler) :
    items p (fillers.flatMap Filler.text ++ back)
      = items (p.after (fillers.flatMap Filler.text)) back := by
  induction fillers generalizing p with
  | nil => rfl
  | cons filler fillers ih =>
    rw [List.flatMap_cons, List.append_assoc, items_filler, ih, Place.after_append]

theorem items_separator (gap : Separator) :
    items p (gap.text ++ back) = items (p.after gap.text) back := by
  rw [Separator.text, List.cons_append, items_blank gap.member, items_fillers, ← Place.after_append,
    List.singleton_append]

/-- A lexeme leaves its token behind. -/
theorem items_lexeme (l : Lexeme) (closes : Closes back) :
    items p (l.text ++ back)
      = .token ⟨l.kind, String.ofList l.text, ⟨p.offset, p.offset + byteCount l.text⟩, p.line⟩
        :: items (p.after l.text) back := by
  obtain ⟨c, rest, text, found⟩ := l.pieceAt_text closes
  rw [text, items_cons found]
  rfl

/-! ## A printed text -/

/-- The items of a printed text are tokens, one for each lexeme. -/
theorem items_printed (ls : List (Lexeme × Separator)) :
    ∃ tokens, items p (printed ls) = tokens.map Item.token
      ∧ List.Forall₂ Lexeme.IsToken (ls.map Prod.fst) tokens := by
  induction ls using printed.induct generalizing p with
  | case1 => exact ⟨[], items_nil, .nil⟩
  | case2 l gap =>
    have one : items p (l.text ++ []) = _ := items_lexeme l nofun
    rw [List.append_nil, items_nil] at one
    exact ⟨[_], one, .cons (l.isToken _ _) .nil⟩
  | case3 l gap next others ih =>
    obtain ⟨tokens, later, all⟩ := ih (p := (p.after l.text).after gap.text)
    have closes : Closes (gap.text ++ printed (next :: others)) := by
      rintro c ⟨⟩
      exact gap.member
    have first := items_lexeme (p := p) l closes
    rw [items_separator, later] at first
    exact ⟨_ :: tokens, first, .cons (l.isToken _ _) all⟩

theorem preambleLength_eq_zero {text : List Char} (other : text.head? ≠ some '#') :
    preambleLength text = 0 := by
  have unmarked {mark : List Char} (hash : mark.head? = some '#') : headerLength mark text = 0 := by
    rw [headerLength, if_neg]
    intro marked
    obtain ⟨rest, rfl⟩ := List.isPrefixOf_iff_prefix.1 marked
    exact other (by rw [List.head?_append, hash]; rfl)
  rw [preambleLength, unmarked (by decide), List.drop_zero, unmarked (by decide)]

/-- No lexeme starts like a header line. -/
theorem printed_head (ls : List (Lexeme × Separator)) : (printed ls).head? ≠ some '#' := by
  have first (l : Lexeme) (back : List Char) : (l.text ++ back).head? ≠ some '#' := by
    intro same
    cases l with
    | symbol s => cases s <;> simp [Lexeme.text, Symbol.text] at same
    | whole digits | decimal digits =>
      have digit := digits.digit _ List.mem_cons_self
      rw [Option.some.inj same] at digit
      exact absurd digit (by decide)
    | string => simp [Lexeme.text] at same
    | word first others letter =>
      rw [Option.some.inj same] at letter
      exact absurd letter (by decide)
  match ls with
  | [] => nofun
  | [(l, _)] =>
    have alone := first l []
    rwa [List.append_nil] at alone
  | (l, gap) :: next :: others => exact first l _

/-- The tokens of a printed text are its lexemes, and nothing in it is wrong. -/
theorem ofText_printed (ls : List (Lexeme × Separator)) :
    (ofText (String.ofList (printed ls))).diagnostics = []
      ∧ List.Forall₂ Lexeme.IsToken (ls.map Prod.fst) (ofText (String.ofList (printed ls))).tokens
      ∧ (ofText (String.ofList (printed ls))).stop
        = ⟨byteCount (printed ls), 1 + newlineCount (printed ls)⟩ := by
  obtain ⟨tokens, items, all⟩ := items_printed (p := Place.after ⟨0, 1⟩ []) ls
  have none : preambleLength (printed ls) = 0 := preambleLength_eq_zero (printed_head ls)
  simp only [ofText, String.toList_ofList, none, List.take_zero, List.drop_zero, items]
  refine ⟨?_, ?_, ?_⟩
  · simp [List.filterMap_map, Item.diagnostic?]
  · simpa [List.filterMap_map, Function.comp_def, Item.token?] using all
  · simp [Place.after]

/-- The letters that are keywords; every other word is an identifier. -/
example : Keyword.all.map Keyword.letter = "ielbkrcajnvpsmthz".toList := by decide

end Scan

end Monogram
