import Monogram.Proofs.Reading.Soundness

/-! # Derived expressions are read

The grammar groups to the left by naming the left operand first, and the readers by going on from
it.  A derivation is therefore turned into its first part and the trail of what comes behind, which
the repetition of the reader follows.  What stands in brackets is shorter than the whole, and the
induction is on the length.

* `Grammar.Trail`, `Suffixed.trail`, `Operation.trail` — derivations from left to right.
* `Reader.Accepts` — complete for a grammar, up to a length.
* `Reader.expression_eq_done` — reading an expression is deriving it as far as it goes on.
-/

namespace Monogram

namespace Grammar

/-! ## What a derivation begins with -/

/-- The first token is no symbol beside an opening bracket or one of these. -/
def Begins (others : List Symbol) (ts : List Token) : Prop :=
  ∃ t rest, ts = t :: rest ∧
    ∀ s, t.kind = .symbol s → s ∈ [.openParen, .openBracket, .openBrace] ++ others

variable {ts us rest : List Token} {e : Expr} {others : List Symbol}

theorem Begins.append (begins : Begins others ts) : Begins others (ts ++ us) := by
  obtain ⟨t, rest, rfl, symbols⟩ := begins
  exact ⟨t, rest ++ us, rfl, symbols⟩

theorem Begins.not_heads {s : Symbol} (begins : Begins others ts)
    (other : s ∉ [Symbol.openParen, .openBracket, .openBrace] ++ others) : ¬ Heads (.symbol s) ts := by
  obtain ⟨t, rest, rfl, symbols⟩ := begins
  rw [heads_cons]
  exact fun kind => other (symbols s kind)

theorem Bracketed.begins {α : Type} {opening closing : Symbol} {inside : List Token → α → Prop}
    {a : α} (derives : Bracketed opening closing inside ts a)
    (opens : opening ∈ [Symbol.openParen, .openBracket, .openBrace] ++ others) : Begins others ts := by
  cases derives with
  | mk kind =>
    refine ⟨_, _, rfl, fun s same => ?_⟩
    obtain rfl := Token.Kind.symbol.inj (kind.symm.trans same)
    exact opens

theorem Primary.begins (derives : Primary ts e) : Begins [] ts := by
  cases derives with
  | @number t _ reads =>
    refine ⟨t, [], rfl, fun s kind => ?_⟩
    simp [Token.number?, kind] at reads
  | @string t _ reads =>
    refine ⟨t, [], rfl, fun s kind => ?_⟩
    simp [Token.string?, kind] at reads
  | @name t isName =>
    refine ⟨t, [], rfl, fun s kind => ?_⟩
    simp [Token.isName, kind] at isName
  | construct newWord | constructWith newWord =>
    refine ⟨_, _, rfl, fun s kind => ?_⟩
    simp [newWord] at kind
  | list derives | map derives | grouping derives => exact derives.begins (by decide)

theorem Suffixed.begins : ∀ {ts : List Token} {e : Expr}, Suffixed ts e → Begins [] ts
  | _, _, .primary derives => derives.begins
  | _, _, .suffix object _ _ => object.begins.append

theorem Prefixed.begins (derives : Prefixed ts e) : Begins [.bang, .minus, .at] ts := by
  cases derives with
  | @op t s _ rest _ kind prefixes =>
    refine ⟨t, rest, rfl, fun s' same => ?_⟩
    obtain rfl := Token.Kind.symbol.inj (kind.symm.trans same)
    cases prefixes <;> decide
  | suffixed derives =>
    obtain ⟨t, rest, rfl, symbols⟩ := derives.begins
    exact ⟨t, rest, rfl, fun s kind => List.mem_append_left _ (by simpa using symbols s kind)⟩

theorem Operation.begins : ∀ {n : Nat} {ts : List Token} {e : Expr}, Operation n ts e →
    Begins [.bang, .minus, .at] ts
  | _, _, _, .tighter derives => derives.begins
  | _, _, _, .operand derives => derives.begins
  | _, _, _, @Operation.join _ _ _ _ _ _join _left _right first _ _ _ => first.begins.append

theorem Assignment.begins (derives : Assignment ts e) : Begins [.bang, .minus, .at] ts := by
  cases derives with
  | operation derives => exact derives.begins
  | assign first => exact (Prefixed.suffixed first).begins.append

theorem Entry.begins {entry : Expr × Expr} (derives : Entry ts entry) :
    Begins [.bang, .minus, .at] ts := by
  cases derives with
  | mk first => exact first.begins.append

/-! ## What may come behind a derivation -/

theorem Stops.succ {n : Nat} (stops : Stops n rest) : Stops (n + 1) rest :=
  ⟨stops.call, stops.member, stops.index, fun m s join above =>
    stops.join m s join (Nat.le_of_succ_le above)⟩

/-- An operator has one level. -/
theorem Joins.level_unique {n m : Nat} {s : Symbol} {join join' : Expr → Expr → Expr}
    (joins : Joins n s join) (joins' : Joins m s join') : n = m := by
  cases joins <;> cases joins' <;> rfl

theorem stops_cons {n : Nat} {t : Token} {s : Symbol} (kind : t.kind = .symbol s)
    (other : s ∉ [Symbol.openParen, .dot, .openBracket])
    (loose : ∀ m join, Joins m s join → m < n) : Stops n (t :: rest) := by
  simp only [List.mem_cons, not_or, List.not_mem_nil, not_false_eq_true, and_true] at other
  have differ {s' : Symbol} (ne : s ≠ s') : ¬ Heads (.symbol s') (t :: rest) := by
    rw [heads_cons, kind]
    exact fun same => ne (Token.Kind.symbol.inj same)
  refine ⟨differ other.1, differ other.2.1, differ other.2.2, fun m s' join above joins heads => ?_⟩
  obtain rfl := Token.Kind.symbol.inj (kind.symm.trans (heads_cons.1 heads))
  have := loose m join joins
  omega

theorem ends_cons {t : Token} {s : Symbol} (kind : t.kind = .symbol s)
    (closes : s ∈ [Symbol.closeParen, .closeBracket, .closeBrace, .comma, .colon]) :
    Ends (t :: rest) := by
  have stops : Stops 0 (t :: rest) := by
    apply stops_cons kind
    · revert closes
      cases s <;> decide
    · intro m join joins
      cases joins <;> revert closes <;> decide
  refine stops.ends ?_
  rw [heads_cons, kind]
  rintro ⟨⟩
  revert closes
  decide

/-! ## From left to right -/

/-- Steps from one expression to another, each with the tokens that it takes. -/
inductive Trail (step : List Token → Expr → Expr → Prop) : List Token → Expr → Expr → Prop where
  | nil {e : Expr} : Trail step [] e e
  | cons {fs gs : List Token} {e e' e'' : Expr} (first : step fs e e') (others : Trail step gs e' e'') :
      Trail step (fs ++ gs) e e''

theorem Trail.snoc {step : List Token → Expr → Expr → Prop} {fs gs : List Token} {e e' e'' : Expr}
    (trail : Trail step fs e e') (last : step gs e' e'') : Trail step (fs ++ gs) e e'' := by
  induction trail with
  | nil => simpa using Trail.cons last .nil
  | cons first _ ih => simpa using Trail.cons first (ih last)

/-- A primary expression and its suffixes in order. -/
theorem Suffixed.trail : ∀ {ts : List Token} {e : Expr}, Suffixed ts e →
    ∃ ps p fs, ts = ps ++ fs ∧ Primary ps p ∧ Trail Suffix fs p e
      ∧ (Bare ps → ¬ Heads (.symbol .openParen) fs)
  | ts, e, .primary derives => ⟨ts, e, [], by simp, derives, .nil, fun _ => by simp [Heads]⟩
  | _, _, @Suffixed.suffix _ gs _ _ object last apart => by
    obtain ⟨ps, p, fs, rfl, derives, trail, apart'⟩ := object.trail
    refine ⟨ps, p, fs ++ gs, by simp, derives, trail.snoc last, fun bare => ?_⟩
    cases fs with
    | nil => simpa using apart (by simpa using bare)
    | cons f fs =>
      have other := apart' bare
      rw [List.cons_append]
      rwa [heads_cons] at other ⊢

/-- An operator of a level and its right operand. -/
def OperatorStep (n : Nat) (fs : List Token) (e e' : Expr) : Prop :=
  ∃ op s join rs right, fs = op :: rs ∧ op.kind = .symbol s ∧ Joins n s join
    ∧ Operation (n + 1) rs right ∧ e' = join e right

theorem Operation.le_six : ∀ {n : Nat} {ts : List Token} {e : Expr}, Operation n ts e → n ≤ 6
  | _, _, _, .tighter derives => Nat.le_of_succ_le derives.le_six
  | _, _, _, .operand _ => Nat.le_refl 6
  | _, _, _, @Operation.join _ _ _ _ _ _join _left _right first _ _ _ => first.le_six

/-- A first operand and the operators of a level with their right operands in order. -/
theorem Operation.trail : ∀ {n : Nat} {ts : List Token} {e : Expr}, Operation n ts e → n < 6 →
    ∃ ls first fs, ts = ls ++ fs ∧ Operation (n + 1) ls first ∧ Trail (OperatorStep n) fs first e
  | _, ts, e, .tighter derives, _ => ⟨ts, e, [], by simp, derives, .nil⟩
  | _, _, _, .operand _, below => absurd below (by decide)
  | _, _, _, @Operation.join _ _ rs op s make _left right first kind joins second, below => by
    obtain ⟨ls, operand, fs, rfl, derives, trail⟩ := first.trail below
    exact ⟨ls, operand, fs ++ op :: rs, by simp, derives,
      trail.snoc ⟨op, s, make, rs, right, rfl, kind, joins, second, rfl⟩⟩

theorem Operation.prefixed (derives : Operation 6 ts e) : Prefixed ts e := by
  cases derives with
  | tighter derives => exact absurd derives.le_six (by decide)
  | operand derives => exact derives
  | join _ _ joins => exact absurd joins.below (by decide)

theorem Suffixed.operation (derives : Suffixed ts e) : Operation 0 ts e :=
  .tighter (.tighter (.tighter (.tighter (.tighter (.tighter (.operand (.suffixed derives)))))))

end Grammar

open Grammar

namespace Reader

variable {α : Type} {rest tokens : List Token} {bound n : Nat} {t : Token}

/-- Whatever is derived, by fewer tokens than `bound`, is done where what comes next stops it. -/
def Accepts (bound : Nat) (reader : Reader α) (derives : List Token → α → Prop)
    (stops : List Token → Prop) : Prop :=
  ∀ ⦃front a rest⦄, front.length < bound → derives front a → stops rest →
    reader (front ++ rest) = .done a rest

/-! ## Single tokens, brackets and commas -/

theorem expect_of_kind {s : Symbol} {what : String} (kind : t.kind = .symbol s) :
    expect s what (t :: rest) = .done () rest :=
  expect_eq_done.2 ⟨t, rfl, kind⟩

theorem name_of_isName {what : String} (isName : t.isName) :
    name what (t :: rest) = .done t.lexeme rest :=
  name_eq_done.2 ⟨t, rfl, isName, rfl⟩

section

variable {reader : Reader α} {item : List Token → α → Prop} {stops : List Token → Prop}

theorem accepts_commaItems (accepts : Accepts bound reader item stops)
    (comma : ∀ t rest, t.kind = .symbol .comma → stops (t :: rest)) (n : Nat) :
    Accepts (min bound n) (commaItems reader n) (Separated item) fun rest =>
      stops rest ∧ ¬ Heads (.symbol .comma) rest := by
  intro front as rest short separated stopped
  induction separated generalizing n with
  | last first =>
    cases n with
    | zero => omega
    | succ n =>
      rw [commaItems, bind_apply, accepts (by omega) first stopped.1]
      simp only [Reading.andThen]
      rw [acceptThen_eq, if_neg stopped.2, pure_apply]
  | @more ts us c a as first kind _ ih =>
    cases n with
    | zero => omega
    | succ n =>
      simp only [List.length_append, List.length_cons] at short
      rw [commaItems, bind_apply, List.append_assoc, List.cons_append,
        accepts (by omega) first (comma c _ kind)]
      simp only [Reading.andThen]
      rw [acceptThen_eq, if_pos (heads_cons.2 kind), List.tail_cons, bind_apply,
        ih n (by omega)]
      rfl

/-- Items in front of a closing bracket. -/
theorem commaList_of_listed {others : List Symbol} {closing : Symbol} {what : String}
    {inner : List Token} {as : List α} {last : Token} (accepts : Accepts bound reader item stops)
    (separator : ∀ t rest s, t.kind = .symbol s → s = .comma ∨ s = closing → stops (t :: rest))
    (begins : ∀ {ts a}, item ts a → Begins others ts)
    (other : closing ∉ [Symbol.openParen, .openBracket, .openBrace, .comma] ++ others)
    (short : inner.length < bound) (listed : Listed item inner as)
    (closes : last.kind = .symbol closing) :
    commaList reader closing what (inner ++ last :: rest) = .done as rest := by
  rw [commaList_eq]
  cases listed with
  | none =>
    rw [List.nil_append, if_pos (heads_cons.2 closes)]
    simp [expect_of_kind closes, Reading.andThen]
  | some items =>
    have started : Begins others inner := by
      cases items with
      | last first => exact begins first
      | more first => exact (begins first).append
    have open_ : ¬ Heads (.symbol closing) (inner ++ last :: rest) := by
      refine started.append.not_heads fun member => other ?_
      simp only [List.mem_append, List.mem_cons] at member ⊢
      grind
    have stopped : stops (last :: rest) ∧ ¬ Heads (.symbol .comma) (last :: rest) := by
      refine ⟨separator last rest _ closes (.inr rfl), ?_⟩
      rw [heads_cons, closes]
      rintro ⟨⟩
      simp at other
    have read := accepts_commaItems accepts (fun t rest kind => separator t rest _ kind (.inl rfl))
      ((inner ++ last :: rest).length + 1) (by rw [List.length_append]; omega) items stopped
    rw [if_neg open_, bind_apply, bounded, read]
    simp [expect_of_kind closes, Reading.andThen]

end

variable {whole operand : Reader Expr} {e : Expr} {ts : List Token}

theorem accepts_mapEntry (accepts : Accepts bound whole Assignment Ends) :
    Accepts bound (mapEntry whole) Entry Ends := by
  intro front entry rest short derives ends
  cases derives with
  | mk first kind second =>
    simp only [List.length_append, List.length_cons] at short
    rw [mapEntry, List.append_assoc, bind_apply, List.cons_append,
      accepts (by omega) first (ends_cons kind (by decide))]
    simp only [Reading.andThen, bind_apply, expect_of_kind kind]
    rw [accepts (by omega) second ends]
    rfl

/-- Expressions between commas in front of a closing bracket. -/
theorem commaList_of_expressions {closing : Symbol} {what : String} {inner : List Token}
    {as : List Expr} {last : Token} (accepts : Accepts bound whole Assignment Ends)
    (closing_ : closing ∈ [Symbol.closeParen, .closeBracket, .closeBrace])
    (short : inner.length < bound) (listed : Listed Assignment inner as)
    (closes : last.kind = .symbol closing) :
    commaList whole closing what (inner ++ last :: rest) = .done as rest := by
  refine commaList_of_listed accepts ?_ Assignment.begins ?_ short listed closes
  · intro t rest s kind closes
    apply ends_cons kind
    simp only [List.mem_cons] at closing_ ⊢
    grind
  · revert closing_
    cases closing <;> decide

/-! ## Primary expressions -/

theorem construction_cons (isName : t.isName) : construction whole (t :: rest) =
    if Heads (.symbol .openParen) rest then
      (do return .construct t.lexeme (← arguments whole) : Reader Expr) rest.tail
    else .done (.construct t.lexeme []) rest := by
  rw [construction, bind_apply, name_of_isName isName]
  exact acceptThen_eq

theorem kind_of_number? {value : Number} (reads : t.number? = some value) : t.kind = .number := by
  unfold Token.number? at reads
  split at reads
  · next kind => exact kind
  · nomatch reads

theorem kind_of_string? {text : String} (reads : t.string? = some text) : t.kind = .string := by
  unfold Token.string? at reads
  split at reads
  · next kind => exact kind
  · nomatch reads

theorem primary_of_derives (accepts : Accepts bound whole Assignment Ends) (short : ts.length ≤ bound)
    (derives : Primary ts e) (apart : Bare ts → ¬ Heads (.symbol .openParen) rest) :
    primary whole (ts ++ rest) = .done e rest := by
  cases derives with
  | number reads => simp [primary_cons, kind_of_number? reads, reads]
  | string reads => simp [primary_cons, kind_of_string? reads, reads]
  | @name t isName other =>
    rw [List.cons_append, primary_cons]
    cases kind : t.kind with
    | symbol | number | string => simp [Token.isName, kind] at isName
    | identifier => rfl
    | keyword k => cases k <;> first | rfl | exact absurd kind other
  | @construct n t kind isName =>
    simp only [List.cons_append, List.nil_append, primary_cons, kind, construction_cons isName]
    rw [if_neg (apart ⟨n, t, rfl, kind⟩)]
  | constructWith kind isName bracketed =>
    cases bracketed with
    | mk opens inner closes =>
      simp only [List.cons_append, List.length_cons, List.length_append] at short
      simp only [List.cons_append, List.append_assoc, List.nil_append, primary_cons, kind,
        construction_cons isName]
      rw [if_pos (heads_cons.2 opens), List.tail_cons, bind_apply, arguments,
        commaList_of_expressions accepts (by decide) (by omega) inner closes]
      rfl
  | list bracketed =>
    cases bracketed with
    | mk opens inner closes =>
      simp only [List.length_cons, List.length_append, List.cons_append] at short
      simp only [List.cons_append, primary_cons, opens, List.append_assoc, List.nil_append, bind_apply]
      rw [commaList_of_expressions accepts (by decide) (by omega) inner closes]
      rfl
  | map bracketed =>
    cases bracketed with
    | mk opens inner closes =>
      simp only [List.length_cons, List.length_append, List.cons_append] at short
      simp only [List.cons_append, primary_cons, opens, List.append_assoc, List.nil_append, bind_apply]
      rw [commaList_of_listed (accepts_mapEntry accepts) (fun t rest s kind which =>
        ends_cons kind (by rcases which with rfl | rfl <;> decide)) Entry.begins (by decide)
        (by omega) inner closes]
      rfl
  | grouping bracketed =>
    cases bracketed with
    | mk opens inner closes =>
      simp only [List.length_cons, List.length_append, List.cons_append] at short
      simp only [List.cons_append, primary_cons, opens, List.append_assoc, List.nil_append, grouped,
        bind_apply]
      rw [accepts (by omega) inner (ends_cons closes (by decide))]
      simp [Reading.andThen, expect_of_kind closes]

/-! ## Suffixes and prefixes -/

theorem suffixes_of_stops {n : Nat} (positive : 0 < n) (stops : Stops 6 rest) :
    suffixes whole n e rest = .done e rest := by
  obtain ⟨n, rfl⟩ := Nat.exists_eq_add_one_of_ne_zero (Nat.ne_of_gt positive)
  rw [suffixes_succ, if_neg stops.call, if_neg stops.member, if_neg stops.index]

theorem suffixes_of_trail (accepts : Accepts bound whole Assignment Ends) {e' : Expr}
    (trail : Trail Suffix ts e e') (n : Nat) (short : ts.length ≤ bound) (enough : ts.length < n)
    (stops : Stops 6 rest) : suffixes whole n e (ts ++ rest) = .done e' rest := by
  -- a suffix has two tokens at least, so the rounds suffice for the rest of the trail
  induction trail generalizing n with
  | nil => exact suffixes_of_stops enough stops
  | @cons fs gs e e' e'' suffix _ ih =>
    obtain ⟨n, rfl⟩ : ∃ m, n = m + 1 := ⟨n - 1, by omega⟩
    have two := suffix.two_le
    simp only [List.length_append] at short enough
    have onward := ih n (by omega) (by omega)
    rw [List.append_assoc]
    generalize gs ++ rest = behind at onward
    rw [suffixes_succ]
    cases suffix with
    | call bracketed =>
      cases bracketed with
      | mk opens inner closes =>
        simp only [List.cons_append, List.length_cons, List.length_append] at short
        simp only [List.cons_append, List.append_assoc, List.nil_append, heads_cons, opens, if_true,
          List.tail_cons, bind_apply, arguments]
        rw [commaList_of_expressions accepts (by decide) (by omega) inner closes]
        exact onward
    | member dot isName =>
      simp only [List.cons_append, List.nil_append, heads_cons, dot, reduceCtorEq, if_false, if_true,
        List.tail_cons, bind_apply, name_of_isName isName, Token.Kind.symbol.injEq]
      exact onward
    | index bracketed =>
      cases bracketed with
      | mk opens inner closes =>
        simp only [List.cons_append, List.length_cons, List.length_append] at short
        simp only [List.cons_append, List.append_assoc, List.nil_append, heads_cons, opens,
          reduceCtorEq, if_false, if_true, List.tail_cons, bind_apply, Token.Kind.symbol.injEq]
        rw [accepts (by omega) inner (ends_cons closes (by decide))]
        simp only [Reading.andThen, bind_apply, expect_of_kind closes]
        exact onward

theorem accepts_suffixed (accepts : Accepts bound whole Assignment Ends) :
    Accepts (bound + 1) (suffixed whole) Suffixed (Stops 6) := by
  intro front e rest short derives stops
  obtain ⟨ps, p, fs, rfl, primary_, trail, apart⟩ := derives.trail
  simp only [List.length_append] at short
  have apart' : Bare ps → ¬ Heads (.symbol .openParen) (fs ++ rest) := by
    intro bare
    cases fs with
    | nil => exact stops.call
    | cons f fs =>
      have other := apart bare
      rw [List.cons_append]
      rwa [heads_cons] at other ⊢
  rw [suffixed, bind_apply, List.append_assoc, primary_of_derives accepts (by omega) primary_ apart']
  exact suffixes_of_trail accepts trail _ (by omega) (by rw [List.length_append]; omega) stops

theorem accepts_prefixed (accepts : Accepts bound operand Suffixed (Stops 6)) :
    ∀ {ts : List Token} {e : Expr} {rest : List Token}, ts.length < bound → Prefixed ts e →
      Stops 6 rest → prefixed operand (ts ++ rest) = .done e rest
  | _, _, _, short, .op kind prefixes derives, stops => by
    simp only [List.length_cons] at short
    rw [List.cons_append, prefixed, prefixOp?_eq_some.2 ⟨_, kind, prefixes⟩,
      accepts_prefixed accepts (by omega) derives stops]
    rfl
  | _, _, rest, short, .suffixed derives, stops => by
    obtain ⟨t, ts, rfl, symbols⟩ := derives.begins
    have none_ : prefixOp? t.kind = none := by
      cases found : prefixOp? t.kind with
      | none => rfl
      | some op =>
        obtain ⟨s, kind, prefixes⟩ := prefixOp?_eq_some.1 found
        have := symbols s kind
        cases prefixes <;> simp at this
    rw [List.cons_append, prefixed, none_]
    exact accepts short derives stops

/-! ## Operators between operands -/

variable {level : Connective}

theorem chain_of_stops {b : Nat} (same : Level n level) (positive : 0 < b) (stops : Stops n rest) :
    chain level operand b e rest = .done e rest := by
  obtain ⟨b, rfl⟩ := Nat.exists_eq_add_one_of_ne_zero (Nat.ne_of_gt positive)
  have none_ : (rest.head?.bind fun t => level t.kind) = none := by
    cases rest with
    | nil => rfl
    | cons t rest =>
      cases found : level t.kind with
      | none => exact found
      | some join =>
        obtain ⟨s, kind, joins⟩ := (same t.kind join).1 found
        exact absurd (heads_cons.2 kind) (stops.join n s join (Nat.le_refl n) joins)
  rw [chain_succ, none_]

/-- In front of what stops a level, or of an operator of that level, a tighter operand ends. -/
theorem stops_of_trail {e' : Expr} (trail : Trail (OperatorStep n) ts e e') (stops : Stops n rest) :
    Stops (n + 1) (ts ++ rest) := by
  cases trail with
  | nil => exact stops.succ
  | cons first =>
    obtain ⟨op, s, join, rs, right, rfl, kind, joins, -, -⟩ := first
    refine stops_cons kind ?_ fun m join' joins' => ?_
    · cases joins <;> decide
    · have := joins.level_unique joins'
      omega

theorem chain_of_trail (same : Level n level)
    (accepts : Accepts bound operand (Operation (n + 1)) (Stops (n + 1))) {e' : Expr}
    (trail : Trail (OperatorStep n) ts e e') (b : Nat) (short : ts.length ≤ bound)
    (enough : ts.length < b) (stops : Stops n rest) :
    chain level operand b e (ts ++ rest) = .done e' rest := by
  induction trail generalizing b with
  | nil => exact chain_of_stops same enough stops
  | @cons fs gs e e' e'' first trail ih =>
    obtain ⟨op, s, join, rs, right, rfl, kind, joins, derives, rfl⟩ := first
    obtain ⟨b, rfl⟩ : ∃ m, b = m + 1 := ⟨b - 1, by omega⟩
    simp only [List.length_append, List.length_cons] at short enough
    have found := (same op.kind join).2 ⟨s, kind, joins⟩
    rw [List.append_assoc, List.cons_append, chain_succ, List.head?_cons, Option.bind_some, found]
    simp only [List.tail_cons, bind_apply]
    rw [accepts (by omega) derives (stops_of_trail trail stops)]
    exact ih b (by omega) (by omega)

theorem accepts_leftAssoc (same : Level n level) (below : n < 6)
    (accepts : Accepts bound operand (Operation (n + 1)) (Stops (n + 1))) :
    Accepts bound (leftAssoc level operand) (Operation n) (Stops n) := by
  intro front e rest short derives stops
  obtain ⟨ls, first, fs, rfl, first_, trail⟩ := derives.trail below
  simp only [List.length_append] at short
  rw [leftAssoc, bind_apply, List.append_assoc,
    accepts (by omega) first_ (stops_of_trail trail stops)]
  exact chain_of_trail same accepts trail _ (by omega) (by rw [List.length_append]; omega) stops

theorem accepts_levels {ls : List Connective} (same : Levels n ls)
    (accepts : ∀ {ts e rest}, ts.length < bound → Prefixed ts e → Stops 6 rest →
      operand (ts ++ rest) = .done e rest) :
    n ≤ 6 ∧ Accepts bound (ls.foldr leftAssoc operand) (Operation n) (Stops n) := by
  induction same with
  | nil => exact ⟨Nat.le_refl 6, fun _ _ _ short derives => accepts short derives.prefixed⟩
  | cons first _ ih => exact ⟨Nat.le_of_succ_le ih.1, accepts_leftAssoc first ih.1 ih.2⟩

theorem accepts_operation (accepts : Accepts bound whole Assignment Ends) :
    Accepts (bound + 1) (operation whole) (Operation 0) (Stops 0) :=
  (accepts_levels levels_levels (accepts_prefixed (accepts_suffixed accepts))).2

/-! ## Assignments -/

theorem accepts_assignment (accepts : Accepts bound operand (Operation 0) (Stops 0)) (b : Nat) :
    Accepts (min bound b) (assignment operand b) Assignment Ends := by
  induction b with
  | zero =>
    intro front e rest short
    omega
  | succ b ih =>
    intro front e rest short derives ends
    rw [assignment_succ]
    cases derives with
    | operation derives =>
      rw [accepts (by omega) derives (ends.stops 0)]
      simp only [Reading.andThen]
      rw [if_neg ends.assign]
    | @assign ts vs equals _ _ _ first assigns kind second =>
      simp only [List.length_append, List.length_cons] at short
      have stops : Stops 0 (equals :: (vs ++ rest)) :=
        stops_cons kind (by decide) fun m join joins => by cases joins
      rw [List.append_assoc, List.cons_append, accepts (by omega) first.operation stops]
      simp only [Reading.andThen]
      rw [if_pos (heads_cons.2 kind), List.tail_cons, ih (by omega) second ends]
      simp only [assignTo?_eq_some.2 assigns]

theorem accepts_expressionAt (depth : Nat) :
    Accepts depth (expressionAt depth) Assignment Ends := by
  induction depth with
  | zero =>
    intro front e rest short
    omega
  | succ depth ih =>
    intro front e rest short derives ends
    exact accepts_assignment (accepts_operation ih) _ (by rw [List.length_append]; omega) derives ends

theorem expression_of_derives (derives : Assignment ts e) (ends : Ends rest) :
    expression (ts ++ rest) = .done e rest :=
  accepts_expressionAt _ (by rw [List.length_append]; omega) derives ends

/-- Reading an expression gives `e` and stops in front of `rest` exactly when the tokens up to there
derive `e` and what comes next cannot carry it on. -/
theorem expression_eq_done {tokens rest : List Token} {e : Expr} :
    expression tokens = .done e rest ↔ ∃ front, tokens = front ++ rest ∧ Assignment front e ∧ Ends rest := by
  constructor
  · exact fun read => reads_expression read
  · rintro ⟨front, rfl, derives, ends⟩
    exact expression_of_derives derives ends

end Reader

theorem Grammar.ends_nil : Ends [] := by
  constructor <;> simp [Heads]

/-- No tokens derive two expressions. -/
theorem Grammar.Assignment.unique {ts : List Token} {e e' : Expr} (derives : Assignment ts e)
    (derives' : Assignment ts e') : e = e' := by
  have read := Reader.expression_of_derives derives ends_nil
  rw [Reader.expression_of_derives derives' ends_nil] at read
  exact (Reading.done.inj read).1.symm

end Monogram
