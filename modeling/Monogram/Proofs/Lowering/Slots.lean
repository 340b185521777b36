import Monogram.Proofs.Lowering.Emission

/-! # Names in place of slots

A declared global has a slot, and code that knows of the declaration reads and stores there.  The same
code can do without slots: each of them stands for the name of a declared global.

* `Instruction.named`, `Code.named`, `Program.named` — code that uses the names of globals.
* `Instruction.Within` — the slot of an instruction is that of a global.
* `Names.lowerProgram_within` — the slots of lowered code are those of globals known behind it.
* `Program.named_of_prefix` — globals that are declared later change nothing.
-/

namespace Monogram

variable {g g' : List String} {i : Instruction} {c : Code}

/-! ## Instructions -/

namespace Instruction

/-- The slot that the instruction reads or stores into. -/
def slot? : Instruction → Option Nat
  | .loadSlot slot | .storeSlot slot => some slot
  | _ => none

/-- The name that the instruction looks up. -/
def name? : Instruction → Option String
  | .loadName name | .storeName name => some name
  | _ => none

/-- The instruction with the name of a global in place of its slot.  A slot that is none of a global
stays. -/
def named (g : List String) : Instruction → Instruction
  | .loadSlot slot => (g[slot]?).elim (.loadSlot slot) .loadName
  | .storeSlot slot => (g[slot]?).elim (.storeSlot slot) .storeName
  | i => i

/-- If the instruction has a slot, it is that of a global. -/
def Within (g : List String) (i : Instruction) : Prop :=
  ∀ slot, i.slot? = some slot → slot < g.length

/-- If the instruction looks up a name, it is that of no global. -/
def Clear (g : List String) (i : Instruction) : Prop :=
  ∀ name, i.name? = some name → name ∉ g

/-- The slot of the instruction is that of a global, and the name that it looks up is none. -/
structure Apart (g : List String) (i : Instruction) : Prop where
  within : i.Within g
  clear : i.Clear g

theorem named_of_prefix (front : g <+: g') (within : i.Within g) : i.named g = i.named g' := by
  have same : ∀ slot, i.slot? = some slot → g[slot]? = g'[slot]? := by
    intro slot here
    obtain ⟨rest, rfl⟩ := front
    exact (List.getElem?_append_left (within slot here)).symm
  cases i with
  | loadSlot slot | storeSlot slot => rw [named, named, same slot rfl]
  | _ => rfl

theorem Within.mono (front : g <+: g') (within : i.Within g) : i.Within g' :=
  fun slot here => Nat.lt_of_lt_of_le (within slot here) front.length_le

/-- A slot that is that of a global has a name. -/
theorem Within.exists_name {slot : Nat} (within : i.Within g) (here : i.slot? = some slot) :
    ∃ name, g[slot]? = some name :=
  ⟨_, List.getElem?_eq_getElem (within slot here)⟩

end Instruction

/-! ## Code and programs -/

/-- The code with the names of globals in place of their slots. -/
def Code.named (g : List String) (c : Code) : Code :=
  { c with instructions := c.instructions.map (Instruction.named g) }

theorem Code.named_default (g : List String) : Code.named g default = default :=
  congrArg (Code.mk · 0) Array.map_empty

@[simp] theorem Code.size_named : (c.named g).size = c.size :=
  Array.size_map ..

@[simp] theorem Code.getElem?_named (address : Nat) :
    (c.named g).instructions[address]? = c.instructions[address]?.map (Instruction.named g) :=
  Array.getElem?_map ..

theorem Code.named_of_prefix (front : g <+: g') (within : c.Emits (Instruction.Within g)) :
    c.named g = c.named g' := by
  have same : c.instructions.map (Instruction.named g) = c.instructions.map (Instruction.named g') :=
    Array.map_congr_left fun i member => Instruction.named_of_prefix front (within i member)
  simp only [named, same]

/-- The program with the names of globals in place of their slots. -/
def Program.named (g : List String) (p : Program) : Program :=
  ⟨p.classes.map (ClassImage.mapBodies (Code.named g)), p.main.named g⟩

theorem Table.map_congr {α γ : Type} {f f' : α → γ} {t : Table α}
    (same : ∀ value ∈ t.values, f value = f' value) : t.map f = t.map f' := by
  have entries : t.entries.map (fun entry => (entry.1, f entry.2))
      = t.entries.map fun entry => (entry.1, f' entry.2) :=
    List.map_congr_left fun entry member =>
      congrArg (Prod.mk entry.1) (same entry.2 (List.mem_map_of_mem member))
  exact congrArg Table.mk entries

theorem ClassImage.mapBodies_congr {β γ : Type} {f f' : β → γ} {image : ClassImage β}
    (same : image.All fun b => f b = f' b) : image.mapBodies f = image.mapBodies f' := by
  have methods : ∀ t : Table (MethodImage β), (∀ m ∈ t.values, f m.code = f' m.code) →
      t.map (MethodImage.mapBodies f) = t.map (MethodImage.mapBodies f') := by
    intro t codes
    refine Table.map_congr fun m member => ?_
    rw [MethodImage.mapBodies, MethodImage.mapBodies, codes m member]
  simp only [mapBodies, methods _ same.methods, methods _ same.staticMethods, same.staticInit]

/-- Globals that are declared later stand behind the others, so they change no name. -/
theorem Program.named_of_prefix {p : Program} (front : g <+: g')
    (within : p.Emits (Instruction.Within g)) : p.named g = p.named g' := by
  have codes : ∀ c : Code, c.Emits (Instruction.Within g) → c.named g = c.named g' :=
    fun _ => Code.named_of_prefix front
  have classes : p.classes.map (ClassImage.mapBodies (Code.named g))
      = p.classes.map (ClassImage.mapBodies (Code.named g')) :=
    Table.map_congr fun image member =>
      ClassImage.mapBodies_congr ((within.classes image member).mono codes)
  rw [named, named, classes, codes _ within.main]

/-! ## Slots of lowered code -/

namespace Names

theorem slot_lt {known : Names} (front : known.globals.names <+: g) {name : String} {slot : Nat}
    (here : known.slot? name = some slot) : slot < g.length := by
  obtain ⟨inside, -⟩ := List.getElem?_eq_some_iff.1 ((Pool.index?_eq_some_iff ..).1 here)
  exact Nat.lt_of_lt_of_le inside front.length_le

/-- The slot that a declaration gives is that of the declared global. -/
theorem slot?_declared {known known' : Names} {name : String} {slot : Nat}
    (declared : known.declare name = .ok (slot, known')) : known'.slot? name = some slot := by
  unfold declare at declared
  cases here : known.slot? name with
  | some slot' =>
    rw [here] at declared
    cases declared
    exact here
  | none =>
    rw [here] at declared
    simp only at declared
    split at declared
    · cases declared
    · cases declared
      have absent : name ∉ known.globals.names := List.idxOf?_eq_none_iff.1 here
      refine (Pool.index?_eq_some_iff ..).2 ?_
      rw [Pool.names_insert_of_not_mem absent]
      exact List.getElem?_concat_length

/-- A slot that code reads or stores into is that of a global known there, and globals are only added
behind the others. -/
theorem permits_within : Permits (fun known => known.globals.names <+: g) (Instruction.Within g) where
  nameless i nameless := by
    cases i with
    | loadSlot slot | storeSlot slot => exact nameless.elim
    | _ => exact fun slot => nofun
  ownObject := fun slot => nofun
  load {known} front name := by
    intro slot here
    unfold load at here
    split at here
    · cases here
    · split at here
      · next known =>
        cases here
        exact slot_lt front known
      · cases here
      · cases here
  store {known} front name := by
    intro slot here
    unfold store at here
    split at here
    · next known =>
      cases here
      exact slot_lt front known
    · cases here
  receiver _ _ _ _ := fun slot => nofun
  declared {known known' name slot} bound front := by
    intro slot' here
    cases here
    exact slot_lt front (slot?_declared bound)
  before l front := (Pool.prefix_insertAll _ l).trans front

theorem lowerProgram_within {names later : Names} {statements : List Stmt} {p : Program}
    (lowered : names.lowerProgram statements = .ok (p, later)) :
    p.Emits (Instruction.Within later.globals.names) :=
  lowerProgram_emits permits_within lowered (List.prefix_refl _)

end Names

end Monogram
