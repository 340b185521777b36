import Monogram.Proofs.Reading.Readers

/-! # Expressions that have been read are derived

Each level reads the grammar's level of the same name, given that what stands in brackets is read
soundly; the depth of brackets then carries the induction.

* `Reader.reads_expression` — what has been read is derived, as far as the expression goes on.
-/

namespace Monogram

open Grammar

namespace Grammar

/-! ## Operators -/

/-- The next token is no suffix and no operator of this level or a tighter one. -/
structure Stops (n : Nat) (rest : List Token) : Prop where
  call : ¬ Heads (.symbol .openParen) rest
  member : ¬ Heads (.symbol .dot) rest
  index : ¬ Heads (.symbol .openBracket) rest
  join : ∀ m s join, n ≤ m → Joins m s join → ¬ Heads (.symbol s) rest

theorem Stops.ends {rest : List Token} (stops : Stops 0 rest) (other : ¬ Heads (.symbol .equal) rest) :
    Ends rest :=
  ⟨stops.call, stops.member, stops.index, other, fun m s join => stops.join m s join (Nat.zero_le m)⟩

theorem Ends.stops {rest : List Token} (ends : Ends rest) (n : Nat) : Stops n rest :=
  ⟨ends.call, ends.member, ends.index, fun m s join _ => ends.join m s join⟩

theorem Joins.below {n : Nat} {s : Symbol} {join : Expr → Expr → Expr} (joins : Joins n s join) :
    n < 6 := by
  cases joins <;> decide

/-- The reader's table of one level is the grammar's. -/
def Level (n : Nat) (level : Reader.Connective) : Prop :=
  ∀ kind join, level kind = some join ↔ ∃ s, kind = .symbol s ∧ Joins n s join

/-- The reader's tables are the grammar's, from this level on. -/
inductive Levels : Nat → List Reader.Connective → Prop where
  | nil : Levels 6 []
  | cons {n : Nat} {level : Reader.Connective} {rest : List Reader.Connective}
      (first : Level n level) (others : Levels (n + 1) rest) : Levels n (level :: rest)

theorem levels_levels : Levels 0 Reader.levels := by
  unfold Reader.levels
  refine .cons ?_ (.cons ?_ (.cons ?_ (.cons ?_ (.cons ?_ (.cons ?_ .nil)))))
  all_goals
    intro kind join
    constructor
    · intro found
      dsimp only at found
      split at found <;> cases found <;> exact ⟨_, rfl, by constructor⟩
    · rintro ⟨s, rfl, joins⟩
      cases joins <;> rfl

theorem prefixOp?_eq_some {kind : Token.Kind} {op : UnaryOp} :
    Reader.prefixOp? kind = some op ↔ ∃ s, kind = .symbol s ∧ Prefixes s op := by
  constructor
  · intro found
    unfold Reader.prefixOp? at found
    split at found <;> cases found <;> exact ⟨_, rfl, by constructor⟩
  · rintro ⟨s, rfl, prefixes⟩
    cases prefixes <;> rfl

theorem assignTo?_eq_some {target : Expr} {assign : Expr → Expr} :
    Reader.assignTo? target = some assign ↔ Assigns target assign := by
  constructor
  · intro found
    unfold Reader.assignTo? at found
    split at found <;> cases found <;> constructor
  · intro assigns
    cases assigns <;> rfl

/-! ## Targets of assignments -/

theorem Prefixed.suffixed_of_assigns {ts : List Token} {e : Expr} {assign : Expr → Expr}
    (derives : Prefixed ts e) (assigns : Assigns e assign) : Suffixed ts e := by
  cases derives with
  | op => nomatch assigns
  | suffixed derives => exact derives

/-- No operator makes something that can be assigned to. -/
theorem Operation.suffixed_of_assigns {assign : Expr → Expr} : ∀ {n : Nat} {ts : List Token}
    {e : Expr}, Operation n ts e → Assigns e assign → Suffixed ts e
  | _, _, _, .tighter derives, assigns => derives.suffixed_of_assigns assigns
  | _, _, _, .operand derives, assigns => derives.suffixed_of_assigns assigns
  | _, _, _, @Operation.join _ _ _ _ _ _join _left _right _ _ joins _, assigns => by
    cases joins <;> nomatch assigns

/-! ## Lengths -/

theorem Bracketed.two_le {α : Type} {opening closing : Symbol} {inside : List Token → α → Prop}
    {ts : List Token} {a : α} (derives : Bracketed opening closing inside ts a) : 2 ≤ ts.length := by
  cases derives
  simp

theorem Suffix.two_le {fs : List Token} {e e' : Expr} (derives : Suffix fs e e') : 2 ≤ fs.length := by
  cases derives with
  | call derives => exact derives.two_le
  | member => simp
  | index derives => exact derives.two_le

theorem Primary.length_pos {ts : List Token} {e : Expr} (derives : Primary ts e) : 0 < ts.length := by
  cases derives with
  | number | string | name | construct | constructWith => simp
  | list derives | map derives | grouping derives =>
    have := derives.two_le
    omega

theorem Suffixed.length_pos {ts : List Token} {e : Expr} (derives : Suffixed ts e) :
    0 < ts.length := by
  cases derives with
  | primary derives => exact derives.length_pos
  | suffix _ suffix =>
    have := suffix.two_le
    simp only [List.length_append]
    omega

theorem Suffixed.not_bare_append {ts fs : List Token} {e e' : Expr} (derives : Suffixed ts e)
    (suffix : Suffix fs e e') : ¬ Bare (ts ++ fs) := by
  rintro ⟨n, t, equal, -⟩
  have length := congrArg List.length equal
  have := derives.length_pos
  have := suffix.two_le
  simp at length
  omega

end Grammar

namespace Reader

variable {whole operand : Reader Expr} {tokens rest : List Token} {t : Token} {bound : Nat}

/-! ## Primary expressions -/

/-- A class name that is constructed, and its arguments. -/
def construction (whole : Reader Expr) : Reader Expr := do
  let className ← name "Expect class name after 'n'"
  if ← accept (.symbol .openParen) then
    return .construct className (← arguments whole)
  else
    return .construct className []

/-- What stands between an opening and a closing parenthesis. -/
def grouped (whole : Reader Expr) : Reader Expr := do
  let inner ← whole
  expect .closeParen "Expect ')' after expression"
  return .grouping inner

theorem primary_cons : primary whole (t :: rest) =
    match t.kind with
    | .number => t.number?.elim (.refused ⟨.expected "Expect number", t :: rest⟩) fun value =>
      .done (.number value) rest
    | .string => .done (.string (t.string?.getD "")) rest
    | .keyword .newWord => construction whole rest
    | .keyword _ | .identifier => .done (.variable t.lexeme) rest
    | .symbol .openBracket =>
      (do return .list (← commaList whole .closeBracket "Expect ']' after list elements") :
        Reader Expr) rest
    | .symbol .openBrace =>
      (do return .map (← commaList (mapEntry whole) .closeBrace "Expect '\x7d' after map entries") :
        Reader Expr) rest
    | .symbol .openParen => grouped whole rest
    | _ => .refused ⟨.expected "Expect expression", t :: rest⟩ := by
  unfold primary
  simp only [bind_apply, peek, Reading.andThen, List.head?_cons]
  cases t.kind with
  | number => cases t.number? <;> rfl
  | symbol s => cases s <;> rfl
  | keyword k => cases k <;> rfl
  | identifier | string => rfl

theorem reads_grouped (reads : Reads whole fun ts e _ => Assignment ts e) :
    Reads (grouped whole) fun ts e _ => ∃ inner last e', ts = inner ++ [last]
      ∧ last.kind = .symbol .closeParen ∧ Assignment inner e' ∧ e = .grouping e' := by
  intro tokens e rest read
  obtain ⟨inner, mid, taken, later⟩ := bind_eq_done.1 read
  obtain ⟨u, mid', closed, final⟩ := bind_eq_done.1 later
  obtain ⟨rfl, rfl⟩ := pure_eq_done.1 final
  obtain ⟨last, rfl, kind⟩ := expect_eq_done.1 closed
  obtain ⟨ts, rfl, derives⟩ := reads taken
  exact ⟨ts ++ [last], by simp, ts, last, inner, rfl, kind, derives, rfl⟩

theorem reads_mapEntry (reads : Reads whole fun ts e _ => Assignment ts e) :
    Reads (mapEntry whole) fun ts entry _ => Entry ts entry := by
  intro tokens entry rest read
  obtain ⟨key, mid, taken, later⟩ := bind_eq_done.1 read
  obtain ⟨u, mid', separated, later⟩ := bind_eq_done.1 later
  obtain ⟨value, mid'', taken', final⟩ := bind_eq_done.1 later
  obtain ⟨rfl, rfl⟩ := pure_eq_done.1 final
  obtain ⟨colon, rfl, kind⟩ := expect_eq_done.1 separated
  obtain ⟨ks, rfl, first⟩ := reads taken
  obtain ⟨vs, rfl, second⟩ := reads taken'
  exact ⟨ks ++ colon :: vs, by simp, .mk first kind second⟩

/-- What is read behind an opening bracket, together with the bracket. -/
theorem bracketed_of_reads {α : Type} {item : List Token → α → Prop} {reader : Reader α}
    (reads : Reads reader fun ts a _ => item ts a) {opening closing : Symbol}
    (opens : t.kind = .symbol opening) {what : String} {items : List α}
    (read : commaList reader closing what tokens = .done items rest) :
    ∃ ts, tokens = ts ++ rest ∧ Bracketed opening closing (Listed item) (t :: ts) items := by
  obtain ⟨ts, rfl, inner, last, rfl, closes, listed⟩ := reads_commaList reads closing what read
  exact ⟨inner ++ [last], rfl, .mk opens listed closes⟩

/-- A construction takes an opening parenthesis that comes next. -/
theorem reads_construction (reads : Reads whole fun ts e _ => Assignment ts e)
    (kind : t.kind = .keyword .newWord) {e : Expr}
    (read : construction whole tokens = .done e rest) :
    ∃ ts, tokens = ts ++ rest ∧ Primary (t :: ts) e
      ∧ (Bare (t :: ts) → ¬ Heads (.symbol .openParen) rest) := by
  obtain ⟨className, mid, named, later⟩ := bind_eq_done.1 read
  obtain ⟨t', rfl, isName, rfl⟩ := name_eq_done.1 named
  rw [acceptThen_eq] at later
  split at later
  · next heads =>
    obtain ⟨opening, mid, rfl, opens⟩ := heads
    obtain ⟨args, mid', taken, final⟩ := bind_eq_done.1 later
    obtain ⟨rfl, rfl⟩ := pure_eq_done.1 final
    obtain ⟨ts, rfl, bracketed⟩ := bracketed_of_reads reads opens taken
    refine ⟨t' :: opening :: ts, rfl, .constructWith kind isName bracketed, ?_⟩
    rintro ⟨n, t'', bare, -⟩
    simp at bare
  · next other =>
    obtain ⟨rfl, rfl⟩ := pure_eq_done.1 later
    exact ⟨[t'], rfl, .construct kind isName, fun _ => other⟩

theorem not_bare_of_kind {ts : List Token} (other : t.kind ≠ .keyword .newWord) : ¬ Bare (t :: ts) := by
  rintro ⟨n, t', equal, kind⟩
  obtain ⟨rfl, rfl⟩ := List.cons.inj equal
  exact other kind

theorem reads_primary (reads : Reads whole fun ts e _ => Assignment ts e) :
    Reads (primary whole) fun ts e rest =>
      Primary ts e ∧ (Bare ts → ¬ Heads (.symbol .openParen) rest) := by
  intro tokens e rest read
  cases tokens with
  | nil => nomatch read
  | cons t tokens =>
    have other (kind : t.kind ≠ .keyword .newWord) (ts : List Token) (bare : Bare (t :: ts)) :
        ¬ Heads (.symbol .openParen) rest := absurd bare (not_bare_of_kind kind)
    rw [primary_cons] at read
    split at read
    · next kind =>
      cases found : t.number? with
      | none => simp [found] at read
      | some value =>
        simp only [found, Option.elim_some, Reading.done.injEq] at read
        obtain ⟨rfl, rfl⟩ := read
        exact ⟨[t], rfl, .number found, other (by simp [kind]) _⟩
    · next kind =>
      cases found : t.string? with
      | none => simp [Token.string?, kind] at found
      | some text =>
        simp only [found, Option.getD_some, Reading.done.injEq] at read
        obtain ⟨rfl, rfl⟩ := read
        exact ⟨[t], rfl, .string found, other (by simp [kind]) _⟩
    · next kind =>
      obtain ⟨ts, rfl, derives, apart⟩ := reads_construction reads kind read
      exact ⟨t :: ts, rfl, derives, apart⟩
    · next k newWord kind =>
      obtain ⟨rfl, rfl⟩ := Reading.done.inj read
      have kind' : t.kind ≠ .keyword .newWord := by
        rw [kind]
        exact fun same => newWord (Token.Kind.keyword.inj same)
      exact ⟨[t], rfl, .name (by simp [Token.isName, kind]) kind', other kind' _⟩
    · next kind =>
      obtain ⟨rfl, rfl⟩ := Reading.done.inj read
      exact ⟨[t], rfl, .name (by simp [Token.isName, kind]) (by simp [kind]), other (by simp [kind]) _⟩
    · next kind =>
      obtain ⟨items, mid, taken, final⟩ := bind_eq_done.1 read
      obtain ⟨rfl, rfl⟩ := pure_eq_done.1 final
      obtain ⟨ts, rfl, bracketed⟩ := bracketed_of_reads reads kind taken
      exact ⟨t :: ts, rfl, .list bracketed, other (by simp [kind]) _⟩
    · next kind =>
      obtain ⟨entries, mid, taken, final⟩ := bind_eq_done.1 read
      obtain ⟨rfl, rfl⟩ := pure_eq_done.1 final
      obtain ⟨ts, rfl, bracketed⟩ := bracketed_of_reads (reads_mapEntry reads) kind taken
      exact ⟨t :: ts, rfl, .map bracketed, other (by simp [kind]) _⟩
    · next kind =>
      obtain ⟨ts, rfl, inner, last, e', rfl, closes, derives, rfl⟩ := reads_grouped reads read
      exact ⟨t :: (inner ++ [last]), rfl, .grouping (.mk kind derives closes), other (by simp [kind]) _⟩
    · nomatch read

/-! ## Suffixes and prefixes -/

theorem suffixes_succ {n : Nat} {e : Expr} : suffixes whole (n + 1) e tokens =
    if Heads (.symbol .openParen) tokens then
      (do suffixes whole n (.call e (← arguments whole)) : Reader Expr) tokens.tail
    else if Heads (.symbol .dot) tokens then
      (do suffixes whole n (.member e (← name "Expect property name after '.'")) : Reader Expr)
        tokens.tail
    else if Heads (.symbol .openBracket) tokens then
      (do
        let index ← whole
        expect .closeBracket "Expect ']' after index"
        suffixes whole n (.index e index) : Reader Expr) tokens.tail
    else .done e tokens := by
  rw [suffixes, acceptThen_eq]
  split
  · rfl
  · rw [acceptThen_eq]
    split
    · rfl
    · rw [acceptThen_eq]
      split <;> rfl

theorem reads_suffixes (reads : Reads whole fun ts e _ => Assignment ts e) (n : Nat) {ts : List Token}
    {object e : Expr} (derives : Suffixed ts object)
    (apart : Bare ts → ¬ Heads (.symbol .openParen) tokens)
    (read : suffixes whole n object tokens = .done e rest) :
    ∃ fs, tokens = fs ++ rest ∧ Suffixed (ts ++ fs) e ∧ Stops 6 rest := by
  induction n generalizing ts object tokens with
  | zero => nomatch read
  | succ n ih =>
    -- behind a suffix the object is no longer a bare construction
    have further (t : Token) (fs : List Token) {mid : List Token} {object' : Expr}
        (first : tokens = t :: fs ++ mid) (suffix : Suffix (t :: fs) object object')
        (read' : suffixes whole n object' mid = .done e rest) :
        ∃ fs, tokens = fs ++ rest ∧ Suffixed (ts ++ fs) e ∧ Stops 6 rest := by
      subst first
      have next : Suffixed (ts ++ t :: fs) object' := by
        refine .suffix derives suffix fun bare heads => apart bare ?_
        rw [List.cons_append, heads_cons]
        exact heads_cons.1 heads
      obtain ⟨others, rfl, derives', stops⟩ :=
        ih next (fun bare => absurd bare (derives.not_bare_append suffix)) read'
      exact ⟨t :: fs ++ others, by simp, by simpa using derives', stops⟩
    rw [suffixes_succ] at read
    split at read
    · next heads =>
      obtain ⟨opening, mid, rfl, opens⟩ := heads
      obtain ⟨args, mid', taken, later⟩ := bind_eq_done.1 read
      obtain ⟨fs, rfl, bracketed⟩ := bracketed_of_reads reads opens taken
      exact further _ _ rfl (.call bracketed) later
    · next not_call =>
      split at read
      · next heads =>
        obtain ⟨dot, mid, rfl, kind⟩ := heads
        obtain ⟨member, mid', named, later⟩ := bind_eq_done.1 read
        obtain ⟨t, rfl, isName, rfl⟩ := name_eq_done.1 named
        exact further dot [t] rfl (.member kind isName) later
      · next not_member =>
        split at read
        · next heads =>
          obtain ⟨opening, mid, rfl, opens⟩ := heads
          obtain ⟨index, mid', taken, later⟩ := bind_eq_done.1 read
          obtain ⟨u, mid'', closed, final⟩ := bind_eq_done.1 later
          obtain ⟨last, rfl, closes⟩ := expect_eq_done.1 closed
          obtain ⟨is, rfl, inner⟩ := reads taken
          exact further opening (is ++ [last]) (by simp) (.index (.mk opens inner closes)) final
        · next not_index =>
          obtain ⟨rfl, rfl⟩ := Reading.done.inj read
          refine ⟨[], rfl, by simpa using derives, not_call, not_member, not_index, ?_⟩
          intro m s join level joins
          have := joins.below
          omega

theorem reads_suffixed (reads : Reads whole fun ts e _ => Assignment ts e) :
    Reads (suffixed whole) fun ts e rest => Suffixed ts e ∧ Stops 6 rest := by
  intro tokens e rest read
  obtain ⟨object, mid, taken, later⟩ := bind_eq_done.1 read
  obtain ⟨ts, rfl, derives, apart⟩ := reads_primary reads taken
  obtain ⟨fs, rfl, derives', stops⟩ := reads_suffixes reads _ (.primary derives) apart later
  exact ⟨ts ++ fs, by simp, derives', stops⟩

theorem reads_prefixed (reads : Reads operand fun ts e rest => Suffixed ts e ∧ Stops 6 rest) :
    Reads (prefixed operand) fun ts e rest => Prefixed ts e ∧ Stops 6 rest := by
  intro tokens
  induction tokens with
  | nil =>
    intro e rest read
    obtain ⟨ts, split, derives, stops⟩ := reads read
    exact ⟨ts, split, .suffixed derives, stops⟩
  | cons t tokens ih =>
    intro e rest read
    unfold prefixed at read
    split at read
    · next op found =>
      obtain ⟨inner, mid, taken, final⟩ := Reading.andThen_eq_done.1 read
      obtain ⟨rfl, rfl⟩ := Reading.done.inj final
      obtain ⟨s, kind, prefixes⟩ := prefixOp?_eq_some.1 found
      obtain ⟨ts, rfl, derives, stops⟩ := ih taken
      exact ⟨t :: ts, rfl, .op kind prefixes derives, stops⟩
    · obtain ⟨ts, split, derives, stops⟩ := reads read
      exact ⟨ts, split, .suffixed derives, stops⟩

/-! ## Operators between operands -/

variable {level : Connective} {n : Nat}

/-- The next token of one level. -/
theorem chain_succ {b : Nat} {left : Expr} : chain level operand (b + 1) left tokens =
    match tokens.head?.bind fun t => level t.kind with
    | none => .done left tokens
    | some join => (do chain level operand b (join left (← operand)) : Reader Expr) tokens.tail := by
  rw [chain]
  simp only [bind_apply, peek, Reading.andThen]
  cases tokens.head?.bind fun t => level t.kind <;> rfl

theorem reads_chain (same : Level n level)
    (reads : Reads operand fun ts e rest => Operation (n + 1) ts e ∧ Stops (n + 1) rest) (b : Nat)
    {ls : List Token} {left e : Expr} (derives : Operation n ls left) (stops : Stops (n + 1) tokens)
    (read : chain level operand b left tokens = .done e rest) :
    ∃ fs, tokens = fs ++ rest ∧ Operation n (ls ++ fs) e ∧ Stops n rest := by
  induction b generalizing ls left tokens with
  | zero => nomatch read
  | succ b ih =>
    rw [chain_succ] at read
    split at read
    · next none_joins =>
      obtain ⟨rfl, rfl⟩ := Reading.done.inj read
      refine ⟨[], rfl, by simpa using derives, stops.call, stops.member, stops.index, ?_⟩
      intro m s join above joins heads
      obtain rfl | above := Nat.eq_or_lt_of_le above
      · obtain ⟨t, rest, rfl, kind⟩ := heads
        have := (same t.kind join).2 ⟨s, kind, joins⟩
        simp [this] at none_joins
      · exact stops.join m s join above joins heads
    · next join joined =>
      obtain ⟨t, head, found⟩ := Option.bind_eq_some_iff.1 joined
      obtain ⟨tail, rfl⟩ := List.head?_eq_some_iff.1 head
      obtain ⟨s, kind, joins⟩ := (same t.kind join).1 found
      obtain ⟨right, mid, taken, later⟩ := bind_eq_done.1 read
      obtain ⟨rs, rfl, second, stops'⟩ := reads taken
      obtain ⟨fs, rfl, derives', stops''⟩ := ih (.join derives kind joins second) stops' later
      exact ⟨t :: rs ++ fs, by simp, by simpa using derives', stops''⟩

theorem reads_leftAssoc (same : Level n level)
    (reads : Reads operand fun ts e rest => Operation (n + 1) ts e ∧ Stops (n + 1) rest) :
    Reads (leftAssoc level operand) fun ts e rest => Operation n ts e ∧ Stops n rest := by
  intro tokens e rest read
  obtain ⟨first, mid, taken, later⟩ := bind_eq_done.1 read
  obtain ⟨ls, rfl, derives, stops⟩ := reads taken
  obtain ⟨fs, rfl, derives', stops'⟩ := reads_chain same reads _ (.tighter derives) stops later
  exact ⟨ls ++ fs, by simp, derives', stops'⟩

theorem reads_levels {ls : List Connective} (same : Levels n ls)
    (reads : Reads operand fun ts e rest => Prefixed ts e ∧ Stops 6 rest) :
    Reads (ls.foldr leftAssoc operand) fun ts e rest => Operation n ts e ∧ Stops n rest := by
  induction same with
  | nil =>
    intro tokens e rest read
    obtain ⟨ts, split, derives, stops⟩ := reads read
    exact ⟨ts, split, .operand derives, stops⟩
  | cons first _ ih => exact reads_leftAssoc first ih

theorem reads_operation (reads : Reads whole fun ts e _ => Assignment ts e) :
    Reads (operation whole) fun ts e rest => Operation 0 ts e ∧ Stops 0 rest :=
  reads_levels levels_levels (reads_prefixed (reads_suffixed reads))

/-! ## Assignments -/

theorem assignment_succ {b : Nat} : assignment operand (b + 1) tokens =
    (operand tokens).andThen fun target mid =>
      if Heads (.symbol .equal) mid then
        (assignment operand b mid.tail).andThen fun value rest =>
          match assignTo? target with
          | some assign => .done (assign value) rest
          | none => .refused ⟨.target mid.head!, rest⟩
      else .done target mid := by
  rw [assignment]
  simp only [bind_apply]
  congr
  funext target mid
  cases mid with
  | nil => rfl
  | cons t mid =>
    by_cases equals : t.kind = .symbol .equal
    · simp only [bind_apply, peek, advance, Reading.andThen, List.head?_cons, heads_cons, equals, if_true]
      cases assignTo? target <;> rfl
    · simp [peek, Reading.andThen, heads_cons, equals]

theorem reads_assignment (reads : Reads operand fun ts e rest => Operation 0 ts e ∧ Stops 0 rest)
    (b : Nat) : Reads (assignment operand b) fun ts e rest => Assignment ts e ∧ Ends rest := by
  induction b with
  | zero => nofun
  | succ b ih =>
    intro tokens e rest read
    rw [assignment_succ] at read
    obtain ⟨target, mid, taken, later⟩ := Reading.andThen_eq_done.1 read
    obtain ⟨ts, rfl, derives, stops⟩ := reads taken
    split at later
    · next heads =>
      obtain ⟨equals, mid, rfl, kind⟩ := heads
      obtain ⟨value, mid', taken, final⟩ := Reading.andThen_eq_done.1 later
      obtain ⟨vs, rfl, second, ends⟩ := ih taken
      split at final
      · next assign found =>
        obtain ⟨rfl, rfl⟩ := Reading.done.inj final
        have assigns := assignTo?_eq_some.1 found
        have first := derives.suffixed_of_assigns assigns
        exact ⟨ts ++ equals :: vs, by simp, .assign first assigns kind second, ends⟩
      · nomatch final
    · next other =>
      obtain ⟨rfl, rfl⟩ := Reading.done.inj later
      exact ⟨ts, rfl, .operation derives, stops.ends other⟩

theorem reads_expressionAt (depth : Nat) :
    Reads (expressionAt depth) fun ts e rest => Assignment ts e ∧ Ends rest := by
  induction depth with
  | zero => nofun
  | succ depth ih =>
    intro tokens e rest read
    have inner : Reads (expressionAt depth) fun ts e _ => Assignment ts e := by
      intro tokens e rest read
      obtain ⟨ts, split, derives, -⟩ := ih read
      exact ⟨ts, split, derives⟩
    exact reads_assignment (reads_operation inner) _ read

theorem reads_expression : Reads expression fun ts e rest => Assignment ts e ∧ Ends rest :=
  fun tokens _ _ read => reads_expressionAt (tokens.length + 1) read

end Reader

end Monogram
