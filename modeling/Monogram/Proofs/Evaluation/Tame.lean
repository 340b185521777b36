import Mathlib.Data.List.Basic
import Monogram.Proofs.Evaluation.Operation

/-! # Operations come to an end

An operation on values ends with a value or with a fault about its operands.  It has been given all
of them, so it never misses one.  A fault about a class that its number does not lead to, or about a
value that is no class, comes from the access to a static alone.  Only one operation raises a value,
that of the system object.

* `Fault.OfValues` — a fault about values.
* `Eval.Ends` — an evaluation that ends, without raising, and with such a fault only.
* `Eval.Tame` — an evaluation that ends, without raising and not for want of operands.
-/

namespace Monogram

/-- A fault about values: neither an operand is missing nor a class. -/
def Fault.OfValues : Fault → Prop
  | .operandUnderflow | .unknownClassId _ | .notAClass _ _ => False
  | _ => True

theorem Fault.OfValues.supplied {f : Fault} (h : f.OfValues) : f ≠ .operandUnderflow := by
  rintro rfl
  exact h

/-- Where the result is a fault, it is such a one. -/
def Fault.Among {α : Type} (good : Fault → Prop) (result : Except Fault α) : Prop :=
  ∀ f, result = .error f → good f

namespace Fault.Among

variable {α γ : Type} {good : Fault → Prop}

theorem ok (a : α) : Among good (.ok a) := fun _ => nofun

theorem error {f : Fault} (h : good f) : Among good (.error f : Except Fault α) := by
  rintro _ ⟨⟩
  exact h

theorem bind {result : Except Fault α} {next : α → Except Fault γ} (first : Among good result)
    (second : ∀ a, Among good (next a)) : Among good (result >>= next) := by
  cases result with
  | ok a => exact second a
  | error f => exact error (first f rfl)

theorem map {result : Except Fault α} (f : α → γ) (first : Among good result) :
    Among good (result.map f) := by
  cases result with
  | ok a => exact ok (f a)
  | error e => exact error (first e rfl)

end Fault.Among

open Fault (Among OfValues)
open Fault.Among (ok error)

/-! ## Operations on values -/

variable {β : Type}

theorem Arithmetic.among_apply (op : Arithmetic) (x y : Number) : Among OfValues (op.apply x y) := by
  unfold Arithmetic.apply
  cases op with
  | div | rem =>
    dsimp only
    split
    · exact error trivial
    · exact ok _
  | _ => exact ok _

theorem among_listPlace (index : Value) (length : Nat) : Among OfValues (listPlace index length) := by
  have placed : ∀ requested resolved : Int, Among OfValues
      (if resolved < 0 ∨ (length : Int) ≤ resolved then .error (.indexOutOfRange requested length)
        else .ok resolved.toNat) := by
    intro requested resolved
    split
    · exact error trivial
    · exact ok _
  unfold listPlace
  split
  · exact error trivial
  · split
    · exact error trivial
    · exact placed _ _

theorem Dict.among_keyOf (v : Value) : Among OfValues (keyOf v) := by
  unfold keyOf
  split
  · exact ok _
  · exact error trivial

theorem Dict.among_ofEntries (entries : List (Value × Value)) : Among OfValues (ofEntries entries) := by
  unfold ofEntries
  generalize empty = d
  induction entries generalizing d with
  | nil => exact ok d
  | cons entry rest ih =>
    rw [List.foldlM_cons]
    exact (Among.map _ (among_keyOf entry.1)).bind ih

namespace Heap

theorem among_arithmetic (h : Heap β) (op : Arithmetic) (a b : Value) :
    Among OfValues (h.arithmetic op a b) := by
  unfold arithmetic
  split
  · exact ok _
  · exact ok _
  · split
    · exact (op.among_apply _ _).map _
    · exact error trivial

theorem among_compare (h : Heap β) (op : Comparison) (a b : Value) :
    Among OfValues (h.compare op a b) := by
  have ordered : Among OfValues (order op a b) := by
    unfold order
    split
    · exact ok _
    · split
      · exact ok _
      · exact error trivial
  cases op with
  | eq | ne => exact ok _
  | _ => exact ordered

theorem among_negate (a : Value) : Among OfValues (negate a) := by
  unfold negate
  split
  · exact ok _
  · exact error trivial

theorem among_load [Inhabited β] (h : Heap β) (container index : Value) :
    Among OfValues (h.load container index) := by
  unfold load
  split
  · exact (among_listPlace _ _).bind fun _ => ok _
  · refine ((Dict.among_keyOf index).map _).bind fun found => ?_
    cases found with
    | some v => exact ok _
    | none => exact error trivial
  · exact error trivial

theorem among_storing (h : Heap β) (container index v : Value) :
    Among OfValues (h.storing container index v) := by
  unfold storing
  split
  · exact (among_listPlace _ _).bind fun _ => ok _
  · exact (Dict.among_keyOf index).bind fun _ => ok _
  · exact error trivial

end Heap

namespace Registry

theorem among_loaded (r : Registry β) (id : ClassId) :
    Among (· = .unknownClassId id) (r.loaded id) := by
  unfold loaded
  split
  · exact ok _
  · exact error rfl

theorem among_resolveMethod (r : Registry β) (c : ClassImage β) (method : String)
    (caller : Option String) : Among OfValues (r.resolveMethod c method caller) := by
  unfold resolveMethod
  generalize r.size + 1 = steps
  induction steps generalizing c with
  | zero => exact error trivial
  | succ steps ih =>
    unfold resolveMethodIn
    split
    · split
      · exact error trivial
      · exact ok _
    · split
      · exact error trivial
      · split
        · exact error trivial
        · exact ih _

theorem among_resolveStatic_of_loaded {r : Registry β} {id : ClassId} {c : LoadedClass β}
    (found : r.loaded id = .ok c) (method : String) : Among OfValues (r.resolveStatic id method) := by
  unfold resolveStatic
  rw [found]
  refine Among.bind (ok c) fun c => ?_
  split
  · exact ok _
  · exact error trivial

theorem among_resolveStatic (r : Registry β) (id : ClassId) (method : String) :
    Among (fun f => f = .unknownClassId id ∨ f.OfValues) (r.resolveStatic id method) := by
  intro f failed
  cases found : r.loaded id with
  | ok c => exact .inr (among_resolveStatic_of_loaded found method f failed)
  | error e =>
    obtain rfl : e = f := by
      rw [resolveStatic, found] at failed
      cases failed
      rfl
    exact .inl (among_loaded r id e found)

theorem among_checkField (r : Registry β) (c : ClassImage β) (field : String)
    (caller : Option String) : Among OfValues (r.checkField c field caller) := by
  unfold checkField
  generalize r.size + 1 = steps
  induction steps generalizing c with
  | zero => exact ok ()
  | succ steps ih =>
    unfold checkFieldIn
    split
    · split
      · exact error trivial
      · exact ok ()
    · split
      · exact ok ()
      · exact ih _

end Registry

namespace Console

theorem among_print (c : Console) (line : String) : Among OfValues (c.print line).1 := by
  rcases c.print_answer line with answer | ⟨problem, answer⟩
  · exact answer ▸ ok ()
  · exact answer ▸ error trivial

theorem among_bytesValue (line : ByteArray) : Among OfValues (bytesValue line) := by
  unfold bytesValue
  split
  · exact error trivial
  · cases Folder.decode line with
    | ok text => exact ok _
    | error problem => exact error trivial

theorem among_readLine (c : Console) : Among OfValues c.readLine.1 := by
  rcases c.readLine_answer with ⟨line, answer⟩ | ⟨problem, answer⟩
  · exact answer ▸ among_bytesValue line
  · exact answer ▸ error trivial

theorem among_readFile (c : Console) (path : String) : Among OfValues (c.readFile path).1 := by
  rcases c.readFile_answer path with ⟨text, answer⟩ | ⟨problem, answer⟩
  · exact answer ▸ ok _
  · exact answer ▸ error trivial

end Console

/-! ## Operations on scenes -/

/-- An ending with a result, or with such a fault. -/
def Ending.Ends {α : Type} (good : Fault → Prop) : Ending β α → Prop
  | .done _ _ => True
  | .faulted f _ => good f
  | .raised _ _ | .unfinished => False

/-- An ending with a result, or with a fault that is no missing operand. -/
def Ending.Tame {α : Type} : Ending β α → Prop
  | .done _ _ => True
  | .faulted f _ => f ≠ .operandUnderflow
  | .raised _ _ | .unfinished => False

theorem Ending.Ends.tame {α : Type} {good : Fault → Prop} {e : Ending β α} (ends : e.Ends good)
    (supplied : ∀ f, good f → f ≠ .operandUnderflow) : e.Tame := by
  cases e with
  | faulted f scene => exact supplied f ends
  | _ => exact ends

theorem Ending.Tame.finished {α : Type} {e : Ending β α} (tame : e.Tame) : e ≠ .unfinished := by
  intro h
  rw [h] at tame
  exact tame

namespace Eval

variable {α γ : Type} {good : Fault → Prop}

/-- The evaluation ends, without raising, and with such a fault only. -/
def Ends (good : Fault → Prop) (p : Eval β α) : Prop := ∀ scene, (p scene).Ends good

/-- The evaluation ends, without raising and not for want of operands. -/
def Tame (p : Eval β α) : Prop := ∀ scene, (p scene).Tame

theorem Ends.pure (a : α) : Ends good (pure a : Eval β α) := fun _ => trivial

theorem Ends.look : Ends good (look : Eval β (Scene β)) := fun _ => trivial

theorem Ends.alter (change : Scene β → Scene β) : Ends good (alter change) := fun _ => trivial

theorem Ends.fault {f : Fault} (h : good f) : Ends good (fault f : Eval β α) := fun _ => h

theorem Ends.lift {result : Except Fault α} (among : Among good result) :
    Ends good (lift result : Eval β α) := by
  cases result with
  | ok a => exact Ends.pure a
  | error f => exact Ends.fault (among f rfl)

theorem Ends.bind {p : Eval β α} {q : α → Eval β γ} (first : Ends good p)
    (second : ∀ a, Ends good (q a)) : Ends good (p >>= q) := by
  intro scene
  have ending := first scene
  rw [bind_apply]
  cases h : p scene with
  | done a scene => exact second a scene
  | raised v scene => rw [h] at ending; exact ending
  | faulted f scene => rw [h] at ending; exact ending
  | unfinished => rw [h] at ending; exact ending

/-- Behind an answer of the console. -/
theorem Ends.consult {ask : Console → α × Console} {q : α → Eval β γ}
    (second : ∀ c, Ends good (q (ask c).1)) : Ends good (Eval.consult ask >>= q) :=
  fun scene => second scene.console _

/-- An evaluation that ends in the change of the scene that makes its result. -/
theorem Ends.alter_pure (change : Scene β → Scene β) (a : α) :
    Ends good (do Eval.alter change; return a) := (Ends.alter change).bind fun _ => .pure a

theorem ends_truthy (a : Value) : Ends good (truthy a : Eval β Bool) := Ends.look.bind fun _ => .pure _

theorem ends_arithmetic (op : Arithmetic) (a b : Value) :
    Ends OfValues (arithmetic op a b : Eval β Value) := by
  refine Ends.look.bind fun scene => (Ends.lift (scene.heap.among_arithmetic op a b)).bind ?_
  intro result
  cases result with
  | value v => exact .pure v
  | newList items => exact Ends.look.bind fun _ => Ends.alter_pure _ _

theorem ends_loadField [Inhabited β] (o : Value) (field : String) :
    Ends OfValues (loadField o field : Eval β Value) := by
  cases o with
  | object address =>
    exact Ends.look.bind fun _ => (Ends.lift (Registry.among_checkField _ _ _ _)).bind fun _ => .pure _
  | _ => exact Ends.fault trivial

theorem ends_storeField [Inhabited β] (o : Value) (field : String) (v : Value) :
    Ends OfValues (storeField o field v : Eval β Value) := by
  cases o with
  | object address =>
    exact Ends.look.bind fun _ =>
      (Ends.lift (Registry.among_checkField _ _ _ _)).bind fun _ => Ends.alter_pure _ _
  | _ => exact Ends.fault trivial

theorem tame_loadField [Inhabited β] (o : Value) (field : String) :
    Tame (loadField o field : Eval β Value) := fun scene =>
  (ends_loadField o field scene).tame fun _ => OfValues.supplied

theorem tame_storeField [Inhabited β] (o : Value) (field : String) (v : Value) :
    Tame (storeField o field v : Eval β Value) := fun scene =>
  (ends_storeField o field v scene).tame fun _ => OfValues.supplied

theorem ends_loadStatic (id : ClassId) (field : String) :
    Ends (· = .unknownClassId id) (loadStatic (.classRef id) field : Eval β Value) :=
  Ends.look.bind fun scene => Ends.lift ((Registry.among_loaded scene.classes id).map _)

theorem ends_storeStatic (id : ClassId) (field : String) (v : Value) :
    Ends (· = .unknownClassId id) (storeStatic (.classRef id) field v : Eval β Value) :=
  Ends.look.bind fun scene =>
    (Ends.lift ((Registry.among_loaded scene.classes id).map _)).bind fun _ => Ends.alter_pure _ _

theorem tame_loadStatic (c : Value) (field : String) : Tame (loadStatic c field : Eval β Value) := by
  intro scene
  cases c with
  | classRef id =>
    exact (ends_loadStatic id field scene).tame fun _ unknown => by simp [unknown]
  | _ => exact fun h => nomatch h

theorem tame_storeStatic (c : Value) (field : String) (v : Value) :
    Tame (storeStatic c field v : Eval β Value) := by
  intro scene
  cases c with
  | classRef id =>
    exact (ends_storeStatic id field v scene).tame fun _ unknown => by simp [unknown]
  | _ => exact fun h => nomatch h

theorem ends_newMap (entries : List (Value × Value)) :
    Ends OfValues (newMap entries : Eval β Value) :=
  (Ends.lift (Dict.among_ofEntries entries)).bind fun _ => Ends.look.bind fun _ => Ends.alter_pure _ _

theorem ends_construct (className : String) :
    Ends OfValues (construct className : Eval β Value) := by
  refine Ends.look.bind fun scene => ?_
  cases scene.classes.byName? className with
  | some image => exact Ends.look.bind fun _ => Ends.alter_pure _ _
  | none => exact Ends.fault trivial

theorem ends_print [Inhabited β] (values : List Value) :
    Ends OfValues (print values : Eval β Value) :=
  Ends.look.bind fun _ => .consult fun c => (Ends.lift (c.among_print _)).bind fun _ => .pure _

/-- The system object raises a value in one of its operations. -/
theorem ends_system [Inhabited β] {name : String} (quiet : name ≠ "t") (arguments : List Value) :
    Ends OfValues (system name arguments : Eval β Value) := by
  unfold system
  split
  · exact ends_print arguments
  · exact .consult fun c => .lift c.among_readLine
  · exact absurd rfl quiet
  · cases arguments with
    | nil => exact Ends.fault trivial
    | cons first others => exact Ends.look.bind fun _ => .consult fun c => .lift (c.among_readFile _)
  · exact Ends.fault trivial

/-- Whether a call is the one that raises. -/
def Raising (method : String) (receiver : Value) : Prop := receiver = .system ∧ method = "t"

theorem callee_of_raising [Inhabited β] {method : String} {receiver : Value}
    (raising : Raising method receiver) (arguments : List Value) (scene : Scene β) :
    callee method receiver arguments scene = .ending (.raised (.string customError) scene) := by
  obtain ⟨rfl, rfl⟩ := raising
  rfl

/-- Any other call leads to a body, or ends with a result or a fault. -/
theorem ends_callee [Inhabited β] {method : String} {receiver : Value} {arguments : List Value}
    {scene : Scene β} {e : Ending β Value} (quiet : ¬ Raising method receiver)
    (ended : callee method receiver arguments scene = .ending e) :
    e.Ends fun f => (∃ id, f = .unknownClassId id) ∨ f.OfValues := by
  cases receiver with
  | object address =>
    simp only [callee] at ended
    split at ended
    · cases ended
    · next found =>
      cases ended
      exact .inr (scene.classes.among_resolveMethod _ _ _ _ found)
  | classRef id =>
    simp only [callee] at ended
    split at ended
    · cases ended
    · next found =>
      cases ended
      exact (scene.classes.among_resolveStatic id method _ found).imp_left fun unknown => ⟨id, unknown⟩
  | system =>
    cases ended
    have ends := ends_system (fun raises => quiet ⟨rfl, raises⟩) arguments scene
    cases outcome : system method arguments scene with
    | faulted f after =>
      rw [outcome] at ends
      exact .inr ends
    | _ =>
      rw [outcome] at ends
      exact ends
  | _ =>
    cases ended
    exact .inr trivial

theorem tame_callee [Inhabited β] {method : String} {receiver : Value} {arguments : List Value}
    {scene : Scene β} {e : Ending β Value} (quiet : ¬ Raising method receiver)
    (ended : callee method receiver arguments scene = .ending e) : e.Tame := by
  refine (ends_callee quiet ended).tame fun f good => ?_
  rcases good with ⟨id, rfl⟩ | values
  · exact fun h => nomatch h
  · exact values.supplied

theorem callee_finished [Inhabited β] {method : String} {receiver : Value} {arguments : List Value}
    {scene : Scene β} {e : Ending β Value}
    (ended : callee method receiver arguments scene = .ending e) : e ≠ .unfinished := by
  by_cases raising : Raising method receiver
  · rw [callee_of_raising raising] at ended
    cases ended
    exact fun h => by cases h
  · exact (tame_callee raising ended).finished

end Eval

namespace Instruction

/-- Whether an instruction uses a static field. -/
def usesStatic : Instruction → Bool
  | .loadStatic _ | .storeStatic _ => true
  | _ => false

/-- A plain instruction that has all its operands and uses no static field ends, and then about its
operands. -/
theorem ends_operate [Inhabited β] {i : Instruction} {args : List Value} (plain : i.isPlain)
    (other : i.usesStatic = false) (count : args.length = i.pops) :
    Eval.Ends OfValues (i.operate args : Eval β Value) := by
  open Eval in
  cases i with
  | push c =>
    obtain rfl := List.length_eq_zero_iff.1 count
    exact Ends.pure _
  | loadSlot slot | loadName name =>
    obtain rfl := List.length_eq_zero_iff.1 count
    exact Ends.look.bind fun _ => .pure _
  | storeSlot slot | storeName name =>
    obtain ⟨v, rfl⟩ := List.length_eq_one_iff.1 count
    exact Ends.alter_pure _ _
  | loadField field =>
    obtain ⟨o, rfl⟩ := List.length_eq_one_iff.1 count
    exact ends_loadField o field
  | storeField field =>
    obtain ⟨o, v, rfl⟩ := List.length_eq_two.1 count
    exact ends_storeField o field v
  | loadIndex =>
    obtain ⟨container, index, rfl⟩ := List.length_eq_two.1 count
    exact Ends.look.bind fun scene => Ends.lift (scene.heap.among_load container index)
  | storeIndex =>
    obtain ⟨container, index, v, rfl⟩ := List.length_eq_three.1 count
    exact Ends.look.bind fun scene =>
      (Ends.lift (scene.heap.among_storing container index v)).bind fun _ => Ends.alter_pure _ _
  | arithmetic op =>
    obtain ⟨a, b, rfl⟩ := List.length_eq_two.1 count
    exact ends_arithmetic op a b
  | compare op =>
    obtain ⟨a, b, rfl⟩ := List.length_eq_two.1 count
    exact Ends.look.bind fun scene =>
      (Ends.lift (scene.heap.among_compare op a b)).bind fun _ => .pure _
  | and | or =>
    obtain ⟨a, b, rfl⟩ := List.length_eq_two.1 count
    exact (ends_truthy a).bind fun _ => .pure _
  | not =>
    obtain ⟨a, rfl⟩ := List.length_eq_one_iff.1 count
    exact (ends_truthy a).bind fun _ => .pure _
  | negate =>
    obtain ⟨a, rfl⟩ := List.length_eq_one_iff.1 count
    exact Ends.lift (Heap.among_negate a)
  | construct className argc => exact ends_construct className
  | print argc =>
    cases args with
    | nil => cases count
    | cons receiver values => exact ends_print values
  | buildList n => exact Ends.look.bind fun _ => Ends.alter_pure _ _
  | buildMap n => exact ends_newMap _
  | loadStatic _ | storeStatic _ => cases other
  | halt | pop | jump _ | jumpIfFalse _ | call _ _ | giveBack | openHandler _ | closeHandler
  | raise => cases plain

/-- A plain instruction that has all its operands ends, and not for want of one. -/
theorem tame_operate [Inhabited β] {i : Instruction} {args : List Value}
    (plain : i.isPlain) (count : args.length = i.pops) : Eval.Tame (i.operate args : Eval β Value) := by
  by_cases static : i.usesStatic
  · cases i with
    | loadStatic field =>
      obtain ⟨c, rfl⟩ := List.length_eq_one_iff.1 count
      exact Eval.tame_loadStatic c field
    | storeStatic field =>
      obtain ⟨c, v, rfl⟩ := List.length_eq_two.1 count
      exact Eval.tame_storeStatic c field v
    | _ => cases static
  · simp only [Bool.not_eq_true] at static
    exact fun scene => (ends_operate plain static count scene).tame fun _ => OfValues.supplied

end Instruction

end Monogram
