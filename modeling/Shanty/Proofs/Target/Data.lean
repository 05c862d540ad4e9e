/-
# The labels of data

The assembly code of a program defines its data under labels: one for each string and one for each
slot of a global variable. The code refers to strings, and to global variables by their first slots.

A variable of one slot has a label without a number, and the slots of any other have the name of the
variable and a number. These labels are read back in one way only, except that a variable of one slot
can be called like a slot of another variable. Then, and only then, a label is defined twice. A label
that the code refers to is defined unless it stands for a variable that has no slots at all, which is
one whose type is a record without fields.
-/

import Shanty.Proofs.Code.Variables
import Shanty.Proofs.Target.Emission
import Shanty.Proofs.Target.Frames

namespace Shanty.Target

open Code (Operand Quad Procedure Program Site Pending Slot Variable Temp Label labelsOf slotWidth
  stringLabel)

/-! ## Reading labels -/

/-- The label that a line of data defines: what stands in front of its first colon. -/
def definedLabel? (text : String) : Option String :=
  if ':' ∈ text.toList then some (String.ofList (text.toList.takeWhile (· ≠ ':'))) else none

/-- The labels that some lines of data define. -/
def definedLabels {Instr : Type} (lines : List (Line Instr)) : List String :=
  lines.filterMap fun
    | .directive text => definedLabel? text
    | .label name => some name
    | .instr _ => none

/-- The labels of data that some lines refer to, given those that an instruction refers to. -/
def referredLabels {Instr : Type} (references : Instr → List String) (lines : List (Line Instr)) :
    List String :=
  lines.flatMap fun
    | .instr instr => references instr
    | .directive _ | .label _ => []

theorem definedLabel?_append {label rest : String} (hlabel : ':' ∉ label.toList)
    (hrest : rest.toList.head? = some ':') : definedLabel? (label ++ rest) = some label := by
  obtain ⟨more, hmore⟩ := List.head?_eq_some_iff.1 hrest
  have hwhile : (label.toList ++ ':' :: more).takeWhile (· ≠ ':') = label.toList := by
    rw [List.takeWhile_append_of_pos, List.takeWhile_cons_of_neg (by simp), List.append_nil]
    intro c hc
    exact decide_eq_true fun heq => hlabel (heq ▸ hc)
  rw [definedLabel?, String.toList_append, hmore, if_pos (by simp), hwhile, String.ofList_toList]

/-! ## Labels of global variables -/

theorem isDigit_of_mem_toString {number : Nat} {c : Char} (hmem : c ∈ (toString number).toList) :
    c.isDigit = true :=
  Text.isDigit_of_mem number (Nat.toList_repr ▸ hmem)

/-- A text that ends in a character and in something without it can be split there in one way. -/
theorem append_cons_inj {front front' back back' : List Char} {c : Char} (hback : c ∉ back)
    (hback' : c ∉ back') (heq : front ++ c :: back = front' ++ c :: back') :
    front = front' ∧ back = back' := by
  have hnil : ∀ {middle rest rest' : List Char}, c ∉ rest → c :: rest = middle ++ c :: rest' →
      middle = [] ∧ rest = rest' := by
    intro middle rest rest' hrest heq
    cases middle with
    | nil => exact ⟨rfl, (List.cons.inj heq).2⟩
    | cons d middle => exact absurd (by simp [(List.cons.inj heq).2]) hrest
  rcases List.append_eq_append_iff.1 heq with ⟨middle, hfront, hrest⟩ | ⟨middle, hfront, hrest⟩
  · obtain ⟨rfl, hsame⟩ := hnil hback hrest
    exact ⟨by rw [hfront, List.append_nil], hsame⟩
  · obtain ⟨rfl, hsame⟩ := hnil hback' hrest
    exact ⟨by rw [hfront, List.append_nil], hsame.symm⟩

/-- The label of a slot tells the variable and the number of the slot. -/
theorem slotLabel_inj {name name' : String} {index index' : Nat}
    (heq : name ++ "_f" ++ toString index = name' ++ "_f" ++ toString index') :
    name = name' ∧ index = index' := by
  have hdigits : ∀ number : Nat, 'f' ∉ (toString number).toList :=
    fun number hmem => absurd (isDigit_of_mem_toString hmem) (by decide)
  have hlists := congrArg String.toList heq
  have hshape : ∀ (name : String) (index : Nat), (name ++ "_f" ++ toString index).toList =
      (name ++ "_").toList ++ 'f' :: (toString index).toList := by
    intro name index
    simp
  rw [hshape, hshape] at hlists
  obtain ⟨hfront, hback⟩ := append_cons_inj (hdigits index) (hdigits index') hlists
  exact ⟨(String.append_left_inj "_").1 (String.toList_inj.1 hfront),
    Code.eq_of_toString_eq (String.toList_inj.1 hback)⟩

/-- A global variable of one slot is called like a slot of another one. -/
def Shadows (var other : Variable) : Prop :=
  var.width = slotWidth ∧ other.width ≠ slotWidth ∧
    ∃ index < slotCount other.width, var.name = other.name ++ "_f" ++ toString index

theorem mem_globalLabels {var : Variable} {label : String} :
    label ∈ globalLabels var ↔
      (var.width = slotWidth ∧ label = "var_" ++ var.name) ∨
        (var.width ≠ slotWidth ∧ ∃ index < slotCount var.width,
          label = "var_" ++ (var.name ++ "_f" ++ toString index)) := by
  simp only [globalLabels, List.mem_map, List.mem_range, globalLabel]
  by_cases hwidth : var.width = slotWidth
  · have hcount : (slotWidth / slotWidth).toInt.toNat = 1 := by decide
    simp only [hwidth, hcount, Nat.lt_one_iff, exists_eq_left, if_true, eq_comm, true_and, ne_eq,
      not_true, false_and, or_false]
  · simp [hwidth, slotCount, String.append_assoc, eq_comm]

theorem nodup_globalLabels (var : Variable) : (globalLabels var).Nodup := by
  by_cases hwidth : var.width = slotWidth
  · have hcount : (var.width / slotWidth).toInt.toNat = 1 := by
      rw [hwidth]
      decide
    rw [globalLabels, hcount]
    exact List.nodup_singleton _
  · refine List.nodup_range.map fun index index' heq => ?_
    simp only [globalLabel, if_neg hwidth, String.append_assoc] at heq
    rw [String.append_right_inj] at heq
    simp only [← String.append_assoc] at heq
    exact (slotLabel_inj heq).2

/-- Two global variables share a label exactly if they have the same name and a slot each, or one of
them is called like a slot of the other. -/
theorem not_disjoint_globalLabels {var other : Variable} (hname : var.name ≠ other.name) :
    ¬ (globalLabels var).Disjoint (globalLabels other) ↔ Shadows var other ∨ Shadows other var := by
  constructor
  · intro hshared
    obtain ⟨label, hvar, hother⟩ : ∃ label, label ∈ globalLabels var ∧ label ∈ globalLabels other := by
      by_contra hnone
      exact hshared fun label hvar hother => hnone ⟨label, hvar, hother⟩
    rcases mem_globalLabels.1 hvar with ⟨hwidth, hlabel⟩ | ⟨hwidth, index, hindex, hlabel⟩ <;>
      rcases mem_globalLabels.1 hother with ⟨hwidth', hlabel'⟩ | ⟨hwidth', index', hindex', hlabel'⟩ <;>
      rw [hlabel, String.append_right_inj] at hlabel'
    · exact absurd hlabel' hname
    · exact .inl ⟨hwidth, hwidth', index', hindex', hlabel'⟩
    · exact .inr ⟨hwidth', hwidth, index, hindex, hlabel'.symm⟩
    · exact absurd (slotLabel_inj hlabel').1 hname
  · rintro (⟨hwidth, hwidth', index, hindex, heq⟩ | ⟨hwidth, hwidth', index, hindex, heq⟩) hdisjoint
    · exact hdisjoint (mem_globalLabels.2 (.inl ⟨hwidth, rfl⟩))
        (mem_globalLabels.2 (.inr ⟨hwidth', index, hindex, by rw [heq]⟩))
    · exact hdisjoint (mem_globalLabels.2 (.inr ⟨hwidth', index, hindex, rfl⟩))
        (mem_globalLabels.2 (.inl ⟨hwidth, by rw [heq]⟩))

/-- The labels of global variables with different names are distinct unless a variable is called like
a slot of another one. -/
theorem nodup_flatMap_globalLabels {vars : List Variable} (hnames : (vars.map (·.name)).Nodup) :
    (vars.flatMap globalLabels).Nodup ↔ ∀ var ∈ vars, ∀ other ∈ vars, ¬ Shadows var other := by
  have hsymm : Std.Symm (Function.onFun List.Disjoint globalLabels) :=
    ⟨fun _ _ hdisjoint _ hfirst hsecond => hdisjoint hsecond hfirst⟩
  have hpairwise : vars.Pairwise (·.name ≠ ·.name) := List.pairwise_map.1 hnames
  rw [List.nodup_flatMap]
  constructor
  · rintro ⟨_, hdisjoint⟩ var hvar other hother hshadows
    have hne : var.name ≠ other.name := by
      intro heq
      have hsame := List.inj_on_of_nodup_map hnames hvar hother heq
      exact hshadows.2.1 (hsame ▸ hshadows.1)
    have hapart := hdisjoint.forall hvar hother fun heq => hne (congrArg (·.name) heq)
    exact (not_disjoint_globalLabels hne).2 (.inl hshadows) hapart
  · intro hnone
    refine ⟨fun var _ => nodup_globalLabels var, ?_⟩
    refine hpairwise.imp_of_mem fun {var other} hvar hother hne => ?_
    by_contra hshared
    rcases (not_disjoint_globalLabels hne).1 hshared with hshadows | hshadows
    · exact hnone var hvar other hother hshadows
    · exact hnone other hother var hvar hshadows

/-! ## Labels of data -/

theorem colon_not_mem_of_ident {text : List Char} (hident : Token.Lexer.Lexeme .ident text) :
    ':' ∉ text := by
  have hstarts : Token.Lexer.startsWord ':' = false := by decide
  have hcontinues : Token.Lexer.continuesWord ':' = false := by decide
  generalize hkind : Token.Kind.ident = kind at hident
  cases hident with
  | word hfirst hrest =>
      intro hmem
      rcases List.mem_cons.1 hmem with rfl | hmem
      · rw [hstarts] at hfirst
        cases hfirst
      · have hcolon := hrest _ hmem
        rw [hcontinues] at hcolon
        cases hcolon
  | number => cases hkind
  | string => cases hkind
  | symbol hsymbol =>
      have hall : ∀ entry ∈ Token.Kind.symbols, entry.2 ≠ .ident := by decide
      exact absurd hkind.symm (hall _ (Token.Lexer.mem_of_lookup hsymbol))
  | slash => cases hkind

theorem colon_not_mem_stringLabel (index : Nat) : ':' ∉ (stringLabel index).toList := by
  intro hmem
  rw [stringLabel, String.toList_append, List.mem_append] at hmem
  rcases hmem with hmem | hmem
  · revert hmem
    decide
  · exact absurd (isDigit_of_mem_toString hmem) (by decide)

theorem colon_not_mem_of_globalLabels {var : Variable} (hname : ':' ∉ var.name.toList)
    {label : String} (hlabel : label ∈ globalLabels var) : ':' ∉ label.toList := by
  have hvar : ':' ∉ "var_".toList := by decide
  rcases mem_globalLabels.1 hlabel with ⟨_, rfl⟩ | ⟨_, index, _, rfl⟩
  · simp only [String.toList_append, List.mem_append, not_or]
    exact ⟨hvar, hname⟩
  · simp only [String.toList_append, List.mem_append, not_or]
    refine ⟨hvar, ⟨hname, by decide⟩, ?_⟩
    exact fun hmem => absurd (isDigit_of_mem_toString hmem) (by decide)

/-- The labels of the strings of a program. -/
def stringLabels (program : Program) : List String :=
  (List.range program.strings.length).map stringLabel

theorem definedLabels_append {Instr : Type} (front back : List (Line Instr)) :
    definedLabels (front ++ back) = definedLabels front ++ definedLabels back :=
  List.filterMap_append

/-- The lines for the strings of a program define their labels. -/
theorem definedLabels_strings {Instr : Type} (program : Program) (directive : String)
    (hdirective : directive.toList.head? = some ':') :
    definedLabels (program.strings.mapIdx fun index text =>
      (.directive (stringLabel index ++ directive ++ text) : Line Instr)) =
        stringLabels program := by
  have hline : ∀ (index : Nat) (text : String),
      definedLabel? (stringLabel index ++ directive ++ text) = some (stringLabel index) := by
    intro index text
    rw [String.append_assoc]
    refine definedLabel?_append (colon_not_mem_stringLabel index) ?_
    rw [String.toList_append, List.head?_append, hdirective, Option.some_or]
  rw [definedLabels, List.mapIdx_eq_zipIdx_map, List.filterMap_map, stringLabels,
    List.range_eq_range', ← List.zipIdx_map_snd 0 program.strings, List.map_map,
    ← List.filterMap_eq_map]
  exact List.filterMap_congr fun entry _ => hline entry.2 entry.1

/-- The lines for the global variables of a program define the labels of their slots. -/
theorem definedLabels_globals {Instr : Type} {program : Program} (hnamed : program.Named)
    (directive : String) (hdirective : directive.toList.head? = some ':') :
    definedLabels ((program.globals.flatMap globalLabels).map fun label =>
      (.directive (label ++ directive) : Line Instr)) = program.globals.flatMap globalLabels := by
  rw [definedLabels, List.filterMap_map]
  refine (List.filterMap_congr (g := some) fun label hlabel => ?_).trans List.filterMap_some
  obtain ⟨var, hvar, hmem⟩ := List.mem_flatMap.1 hlabel
  have hname := colon_not_mem_of_ident (hnamed.spelled var hvar)
  exact definedLabel?_append (colon_not_mem_of_globalLabels hname hmem) hdirective

/-- Labels that begin like those of strings are distinct from those of global variables. -/
theorem nodup_labels {program : Program} (hnamed : program.Named) {front : List String}
    (hfront : front.Nodup) (hstarts : ∀ label ∈ front, label.toList.head? = some 's') :
    (front ++ program.globals.flatMap globalLabels).Nodup ↔
      ∀ var ∈ program.globals, ∀ other ∈ program.globals, ¬ Shadows var other := by
  rw [List.nodup_append, nodup_flatMap_globalLabels hnamed.distinct]
  refine ⟨fun hall => hall.2.1, fun hnone => ⟨hfront, hnone, ?_⟩⟩
  rintro label hlabel other hother rfl
  obtain ⟨var, _, hmem⟩ := List.mem_flatMap.1 hother
  have hhead := hstarts label hlabel
  rcases mem_globalLabels.1 hmem with ⟨_, rfl⟩ | ⟨_, _, _, rfl⟩ <;> simp at hhead

theorem head?_stringLabel (index : Nat) : (stringLabel index).toList.head? = some 's' := by
  simp [stringLabel]

theorem nodup_stringLabels (program : Program) : (stringLabels program).Nodup := by
  refine List.nodup_range.map fun index index' heq => ?_
  exact Code.eq_of_toString_eq ((String.append_right_inj "str_").1 heq)

/-! ## References to data -/

/-- The labels by which code can refer to the data of a program: those of strings and those of the
first slots of global variables. -/
def referable (program : Program) : List String :=
  stringLabels program ++ program.globals.map (globalLabel · 0)

/-- A label that code can refer to is defined unless its variable has no slots. -/
theorem defined_of_referable {program : Program} {label : String} (hlabel : label ∈ referable program) :
    label ∈ stringLabels program ++ program.globals.flatMap globalLabels ∨
      ∃ var ∈ program.globals, slotCount var.width = 0 ∧ label = globalLabel var 0 := by
  rcases List.mem_append.1 hlabel with hlabel | hlabel
  · exact .inl (List.mem_append_left _ hlabel)
  · obtain ⟨var, hvar, rfl⟩ := List.mem_map.1 hlabel
    rcases Nat.eq_zero_or_pos (slotCount var.width) with hcount | hcount
    · exact .inr ⟨var, hvar, hcount, rfl⟩
    · refine .inl (List.mem_append_right _ (List.mem_flatMap.2 ⟨var, hvar, ?_⟩))
      exact List.mem_map_of_mem (List.mem_range.2 hcount)

/-- The labels of data that a location refers to. -/
def Location.references : Location → List String
  | .data _ label => [label]
  | .unset | .frame _ _ | .chosen _ => []

/-- Whatever quads can refer to is found under some labels, as far as it is found under labels. -/
structure Supplies (labels : List String) (site : Site) (placement : Placement) : Prop where
  strings : ∀ index < site.strings, stringLabel index ∈ labels
  stored : ∀ {width : Int64} {operand : Operand} {location : Location},
    site.Stores width operand → placement.locate operand = .ok location →
      location.references ⊆ labels

/-- In the placement of a procedure, code refers to strings and to global variables. -/
theorem Placed.supplies {machine : Machine} {start : Int64} {scale : Int64 → Int64}
    {program : Program} {procedure : Procedure} {placement : Placement}
    (hplaced : Placed machine start scale program procedure placement) :
    Supplies (referable program) (program.site procedure) placement where
  strings index hindex :=
    List.mem_append_left _ (List.mem_map_of_mem (List.mem_range.2 hindex))
  stored := by
    intro width operand location hstores hlocate
    have hframe : ∀ slot width, (slot, width) ∈ storage scale procedure →
        (placement slot).references ⊆ referable program := by
      intro slot width hmem
      obtain ⟨piece, hpiece, rfl, _⟩ := exists_piece start hmem
      rw [hplaced.frame piece hpiece]
      exact List.nil_subset _
    cases operand with
    | var var =>
        cases hlocate
        rcases hstores.1.1 with hglobal | hown
        · rw [hplaced.globals var hglobal]
          refine List.cons_subset.2 ⟨List.mem_append_right _ ?_, List.nil_subset _⟩
          exact List.mem_map_of_mem (f := fun var => globalLabel var 0) hglobal
        · refine hframe _ (scale var.width) ?_
          simp only [storage, List.mem_append, List.mem_map]
          rcases List.mem_append.1 hown with hformal | hlocal
          · exact .inl (.inl (.inl ⟨var, hformal, rfl⟩))
          · exact .inl (.inl (.inr ⟨var, hlocal, rfl⟩))
    | temp temp =>
        cases hlocate
        refine hframe _ (scale temp.width) ?_
        simp only [storage, List.mem_append, List.mem_map]
        exact .inl (.inr ⟨temp, hstores.1.1, rfl⟩)
    | address temp =>
        cases hlocate
        refine hframe _ (scale temp.width) ?_
        simp only [storage, List.mem_append, List.mem_map]
        exact .inr ⟨temp, hstores.1, rfl⟩
    | nothing => exact hstores.1.elim
    | constant => cases hlocate
    | string => cases hlocate

/-- Where an address is kept is found under the labels, too. -/
theorem Supplies.address {labels : List String} {site : Site} {placement : Placement}
    (hsupplies : Supplies labels site placement) {temp : Temp} (htemp : temp ∈ site.addresses) :
    (placement temp.slot).references ⊆ labels :=
  @Supplies.stored _ _ _ hsupplies 0 (.address temp) _ ⟨htemp, rfl⟩ rfl

/-- Instructions that refer to some labels of data only. -/
def Refers {Instr : Type} (references : Instr → List String) (labels : List String)
    (code : List Instr) : Prop :=
  ∀ instr ∈ code, references instr ⊆ labels

section Refers

variable {Instr : Type} {references : Instr → List String} {labels : List String}

@[simp]
theorem refers_nil : Refers references labels [] := by simp [Refers]

@[simp]
theorem refers_cons {instr : Instr} {code : List Instr} :
    Refers references labels (instr :: code) ↔
      references instr ⊆ labels ∧ Refers references labels code := List.forall_mem_cons

@[simp]
theorem refers_append {front back : List Instr} : Refers references labels (front ++ back) ↔
    Refers references labels front ∧ Refers references labels back := List.forall_mem_append

theorem referredLabels_append (front back : List (Line Instr)) :
    referredLabels references (front ++ back) =
      referredLabels references front ++ referredLabels references back := List.flatMap_append

/-- The lines of a quad refer to what its instructions refer to. -/
theorem referredLabels_quad {quad : Quad} {code : List Instr} (hrefers : Refers references labels code) :
    referredLabels references (labelLines quad ++ code.map .instr) ⊆ labels := by
  rw [referredLabels_append, List.append_subset]
  refine ⟨?_, ?_⟩ <;> intro label hlabel <;> rw [referredLabels] at hlabel
  · rw [labelLines, List.flatMap_map] at hlabel
    obtain ⟨_, _, hmem⟩ := List.mem_flatMap.1 hlabel
    cases hmem
  rw [List.flatMap_map] at hlabel
  obtain ⟨instr, hinstr, hmem⟩ := List.mem_flatMap.1 hlabel
  exact hrefers instr hinstr hmem

end Refers

variable {labels : List String} {site : Site} {placement : Placement} {width : Int64}
  {operand : Operand}

/-! ## x86-64 -/

namespace X64

/-- The labels of data that a place refers to. -/
def Mem.references : Mem → List String
  | .storage location => location.references
  | .data label => [label]
  | .through _ | .offset _ _ => []

/-- The labels of data that an argument refers to. -/
def Arg.references : Arg → List String
  | .mem place => place.references
  | .reg _ | .imm _ => []

/-- The labels of data that an instruction refers to. -/
def Instr.references : Instr → List String
  | .mov source target | .arith _ source target => source.references ++ target.references
  | .cmp first second => first.references ++ second.references
  | .lea source _ => source.references
  | .setLow _ | .extendLow | .dec _ | .neg _ | .extendSign | .idiv _ | .push _ | .pop _ | .jump _
  | .jumpIfEqual _ | .call _ | .ret | .nop => []

/-- Refers to some labels only. -/
abbrev CodeRefers (labels : List String) (code : List Instr) : Prop :=
  Refers Instr.references labels code

attribute [local simp] Instr.references Arg.references Mem.references

theorem load_refers (hsupplies : Supplies labels site placement) (hhas : site.Has width operand)
    (reg : Reg) : Ensures (load placement operand reg) (CodeRefers labels) := by
  cases operand with
  | constant => exact .ok (by simp)
  | string index => exact .ok (by simp [hsupplies.strings index hhas.2])
  | address temp => exact .ok (by simp [hsupplies.address hhas])
  | var => exact .pure (by simp [hsupplies.stored ⟨hhas, rfl⟩ rfl])
  | temp => exact .pure (by simp [hsupplies.stored ⟨hhas, rfl⟩ rfl])
  | nothing => exact hhas.elim

theorem store_refers (hsupplies : Supplies labels site placement) (reg : Reg)
    (hstores : site.Stores width operand) :
    Ensures (store placement reg operand) (CodeRefers labels) := by
  unfold store
  split
  · exact .ok (by simp [hsupplies.address hstores.1])
  · intro code hrun
    obtain ⟨location, hlocate, hrun⟩ := exists_of_bind_eq_ok hrun
    cases hrun
    simp [hsupplies.stored hstores hlocate]

theorem addressOf_refers (hsupplies : Supplies labels site placement)
    (hstores : site.Stores width operand) (reg : Reg) :
    Ensures (addressOf placement operand reg) (CodeRefers labels) := by
  unfold addressOf
  split
  · exact .ok (by simp [hsupplies.address hstores.1])
  · intro code hrun
    obtain ⟨location, hlocate, hrun⟩ := exists_of_bind_eq_ok hrun
    cases hrun
    simp [hsupplies.stored hstores hlocate]

theorem copyRecord_refers (hsupplies : Supplies labels site placement)
    (hstores : site.Stores width operand) :
    Ensures (copyRecord placement operand) (CodeRefers labels) := by
  refine (addressOf_refers hsupplies hstores .r11).bind fun address haddress => ?_
  refine (Ensures.trivially _).bind fun _ _ => .pure (refers_append.2 ⟨haddress, ?_⟩)
  intro instr hinstr
  obtain ⟨offset, _, hmem⟩ := List.mem_flatMap.1 hinstr
  simp only [List.mem_cons, List.not_mem_nil, or_false] at hmem
  rcases hmem with rfl | rfl <;> simp

theorem apply_refers (op : Code.BinaryOp) : CodeRefers labels (apply op) := by
  cases op <;> simp [apply, apply.comparison]

theorem binary_refers (hsupplies : Supplies labels site placement) (op : Code.BinaryOp)
    {target left right : Operand} (htarget : site.Stores width target)
    (hleft : site.Has width left) (hright : site.Has width right) :
    Ensures (binary placement op target left right) (CodeRefers labels) := by
  have hstore := store_refers hsupplies .rax htarget
  refine (load_refers hsupplies hleft .rax).bind fun first hfirst => ?_
  split
  · exact hstore.bind fun back hback => .pure (by simp [hfirst, hback])
  split
  · exact hstore.bind fun back hback => .pure (by simp [hfirst, hback])
  refine (load_refers hsupplies hright .rbx).bind fun second hsecond => ?_
  exact hstore.bind fun back hback => .pure (by simp [hfirst, hsecond, hback, apply_refers])

theorem setArg_refers (hsupplies : Supplies labels site placement) (position : Int) {type : Ty}
    (hpasses : site.Passes type operand) :
    Ensures (setArg placement position operand type) (fun answer => CodeRefers labels answer.1) := by
  refine (Ensures.trivially _).bind fun reg? _ => ?_
  cases hrecord : type.isRecord with
  | true =>
      have hfetch := addressOf_refers hsupplies ⟨hpasses.2.1, hpasses.2.2 hrecord⟩ (reg?.getD .rax)
      cases reg? with
      | some => exact hfetch.bind fun _ hfetch => .pure hfetch
      | none => exact hfetch.bind fun _ hfetch => .pure (by simp [hfetch])
  | false =>
      have hfetch := load_refers hsupplies hpasses.2.1 (reg?.getD .rax)
      cases reg? with
      | some => exact hfetch.bind fun _ hfetch => .pure hfetch
      | none => exact hfetch.bind fun _ hfetch => .pure (by simp [hfetch])

theorem getArg_refers (hsupplies : Supplies labels site placement) (position count : Int)
    (isRecord : Bool) (hstores : site.Stores width operand) :
    Ensures (getArg placement position count operand isRecord) (CodeRefers labels) := by
  refine (Ensures.trivially _).bind fun reg? _ => ?_
  cases isRecord with
  | true =>
      refine (copyRecord_refers hsupplies hstores).bind fun copy hcopy => .pure ?_
      cases reg? <;> simp [hcopy]
  | false =>
      cases reg? with
      | some reg => exact store_refers hsupplies reg hstores
      | none =>
          exact (store_refers hsupplies .rax hstores).bind fun back hback => .pure (by simp [hback])

/-- A quad that fits refers to the labels that its procedure is supplied with. -/
theorem instr_refers (hsupplies : Supplies labels site placement) (frame : Int64) (pushed : Nat)
    {own : List Label} {before after : Pending} {instr : Code.Instr}
    (hfits : site.Fits own before instr after) :
    Ensures (X64.instr placement frame pushed instr) (fun answer => CodeRefers labels answer.1) := by
  cases hfits with
  | enter => exact .ok (by simp [number])
  | leave => exact .ok (by simp [number])
  | nop => exact .ok (by simp)
  | goto => exact .ok (by simp)
  | call =>
      refine .ok ?_
      split <;> simp [number]
  | binary htarget hleft hright =>
      exact (binary_refers hsupplies _ htarget hleft hright).bind fun _ hcode => .pure hcode
  | @unary op _ _ htarget hsource =>
      refine Ensures.bind (show Ensures _ (CodeRefers labels) from ?_) fun _ hcode => .pure hcode
      refine (load_refers hsupplies hsource .rax).bind fun fetch hfetch => ?_
      refine (store_refers hsupplies .rax htarget).bind fun back hback => .pure ?_
      cases op <;> simp [hfetch, hback]
  | assign htarget hsource =>
      refine (load_refers hsupplies hsource .rax).bind fun fetch hfetch => ?_
      exact (store_refers hsupplies .rax htarget).bind fun back hback =>
        .pure (by simp [hfetch, hback])
  | index htarget hbase _ =>
      refine (addressOf_refers hsupplies hbase .rax).bind fun fetch hfetch => .pure ?_
      simp [hfetch, hsupplies.address htarget]
  | ifZero hcondition _ =>
      refine Ensures.bind (show Ensures _ (CodeRefers labels) from ?_) fun _ hcode => .pure hcode
      unfold ifZero
      split
      · refine .ok ?_
        split <;> simp
      · exact (load_refers hsupplies hcondition .rax).bind fun fetch hfetch =>
          .pure (by simp [hfetch])
  | setArg hpasses =>
      exact (setArg_refers hsupplies _ hpasses).bind fun _ hcode => .pure hcode
  | @getArg _ _ var _ _ _ hvar _ =>
      have hstores : site.Stores var.width (.var var) := ⟨⟨.inr hvar, rfl⟩, rfl⟩
      exact (getArg_refers hsupplies _ _ _ hstores).bind fun _ hcode => .pure hcode
  | setRet hpasses =>
      unfold X64.instr
      cases hrecord : site.result.isRecord with
      | true =>
          have hstores : site.Stores site.result.size _ := ⟨hpasses.2.1, hpasses.2.2 hrecord⟩
          exact (addressOf_refers hsupplies hstores .rax).bind fun _ hcode => .pure hcode
      | false => exact (load_refers hsupplies hpasses.2.1 .rax).bind fun _ hcode => .pure hcode
  | @getRet temp type _ _ htemp _ =>
      have hstores : site.Stores temp.width (.temp temp) := ⟨⟨htemp, rfl⟩, rfl⟩
      unfold X64.instr
      cases type.isRecord with
      | true =>
          exact (copyRecord_refers hsupplies hstores).bind fun copy hcopy =>
            .pure (by simp [hcopy])
      | false => exact (store_refers hsupplies .rax hstores).bind fun _ hcode => .pure hcode
  | output _ hsource =>
      exact (load_refers hsupplies hsource .rdi).bind fun fetch hfetch => .pure (by simp [hfetch])
  | input _ htarget =>
      exact (store_refers hsupplies .rax htarget).bind fun back hback => .pure (by simp [hback])

theorem quads_refer (hsupplies : Supplies labels site placement) (frame : Int64)
    {own : List Label} {before after : Pending} {quads : List Quad}
    (hall : site.AllFit own before quads after) :
    ∀ pushed, Ensures (X64.quads placement frame pushed quads) (fun answer =>
      referredLabels Instr.references answer.1 ⊆ labels) := by
  induction hall with
  | nil => exact fun _ => .ok (List.nil_subset _)
  | @cons _ _ _ quad rest hfits _ ih =>
      intro pushed
      refine (instr_refers hsupplies frame _ hfits).bind fun answer hanswer => ?_
      refine (ih answer.2).bind fun more hmore => .pure ?_
      rw [referredLabels_append, List.append_subset]
      refine ⟨referredLabels_quad (refers_append.2 ⟨?_, hanswer⟩), hmore⟩
      split <;> simp [number]

/-- The code of the procedures of a program refers to its strings and to its global variables. -/
theorem procedures_refer {program : Program} (hfitting : program.Fitting) (hshaped : program.Shaped)
    (start : Placement) {after : List Procedure} :
    ∀ (before : List Procedure) (pushed : Nat), program.procedures = before ++ after →
      Ensures (X64.procedures (before.foldl X64.layOut (layOutGlobals .x64 start program)) pushed
        after).2 (fun lines => referredLabels Instr.references lines ⊆ referable program) := by
  induction after with
  | nil => exact fun _ _ _ => .ok (List.nil_subset _)
  | cons procedure after ih =>
      intro before pushed hprocedures
      have hmem : procedure ∈ program.procedures := by simp [hprocedures]
      have hplaced := @placed_layOut .x64 frameStart id program hfitting hshaped before after
        procedure hprocedures X64.layOut start fun placement procedure => by
          rw [X64.layOut, List.map_id]
      obtain ⟨_, hall⟩ := (hfitting.procedures procedure hmem).quads_fit
      have hfirst := quads_refer hplaced.supplies procedure.frameSize hall pushed
      simp only [X64.procedures]
      split
      · exact .error
      next lines pushed' hlines =>
        have hrest := ih (before ++ [procedure]) pushed' (by simp [hprocedures])
        rw [List.foldl_append] at hrest
        refine .map fun more hmore => ?_
        simp only [referredLabels_append, List.append_subset]
        exact ⟨hfirst _ hlines, hrest more hmore⟩

end X64

/-! ## MIPS -/

namespace Mips

/-- The labels of data that a place refers to. -/
def Mem.references : Mem → List String
  | .storage location => location.references
  | .data label => [label]
  | .offset _ _ => []

/-- The labels of data that an instruction refers to. -/
def Instr.references : Instr → List String
  | .loadAddress _ source | .loadWord _ source => source.references
  | .storeWord _ target => target.references
  | .binary _ _ _ _ | .neg _ _ | .flip _ _ | .exceeds _ _ _ | .addImm _ _ _ | .reserve _
  | .move _ _ | .loadImm _ _ | .jump _ | .jumpIfZero _ _ | .call _ | .ret | .syscall | .nop => []

/-- Refers to some labels only. -/
abbrev CodeRefers (labels : List String) (code : List Instr) : Prop :=
  Refers Instr.references labels code

attribute [local simp] Instr.references Mem.references

theorem load_refers (hsupplies : Supplies labels site placement) (hhas : site.Has width operand)
    (reg : Reg) : Ensures (load placement operand reg) (CodeRefers labels) := by
  cases operand with
  | constant => exact .ok (by simp)
  | string index => exact .ok (by simp [hsupplies.strings index hhas.2])
  | address temp => exact .ok (by simp [hsupplies.address hhas])
  | var => exact .pure (by simp [hsupplies.stored ⟨hhas, rfl⟩ rfl])
  | temp => exact .pure (by simp [hsupplies.stored ⟨hhas, rfl⟩ rfl])
  | nothing => exact hhas.elim

theorem store_refers (hsupplies : Supplies labels site placement) (reg : Reg)
    (hstores : site.Stores width operand) :
    Ensures (store placement reg operand) (CodeRefers labels) := by
  unfold store
  split
  · exact .ok (by simp [hsupplies.address hstores.1])
  · intro code hrun
    obtain ⟨location, hlocate, hrun⟩ := exists_of_bind_eq_ok hrun
    cases hrun
    simp [hsupplies.stored hstores hlocate]

theorem addressOf_refers (hsupplies : Supplies labels site placement)
    (hstores : site.Stores width operand) (reg : Reg) :
    Ensures (addressOf placement operand reg) (CodeRefers labels) := by
  unfold addressOf
  split
  · exact .ok (by simp [hsupplies.address hstores.1])
  · intro code hrun
    obtain ⟨location, hlocate, hrun⟩ := exists_of_bind_eq_ok hrun
    cases hrun
    simp [hsupplies.stored hstores hlocate]

theorem copyRecord_refers (hsupplies : Supplies labels site placement)
    (hstores : site.Stores width operand) :
    Ensures (copyRecord placement operand) (CodeRefers labels) := by
  refine (addressOf_refers hsupplies hstores .t9).bind fun address haddress => ?_
  refine (Ensures.trivially _).bind fun _ _ => .pure (refers_append.2 ⟨haddress, ?_⟩)
  intro instr hinstr
  obtain ⟨offset, _, hmem⟩ := List.mem_flatMap.1 hinstr
  simp only [List.mem_cons, List.not_mem_nil, or_false] at hmem
  rcases hmem with rfl | rfl <;> simp

theorem setArg_refers (hsupplies : Supplies labels site placement) (position : Int) {type : Ty}
    (hpasses : site.Passes type operand) :
    Ensures (setArg placement position operand type) (fun answer => CodeRefers labels answer.1) := by
  refine (Ensures.trivially _).bind fun reg? _ => ?_
  cases hrecord : type.isRecord with
  | true =>
      have hfetch := addressOf_refers hsupplies ⟨hpasses.2.1, hpasses.2.2 hrecord⟩ (reg?.getD .t0)
      cases reg? with
      | some => exact hfetch.bind fun _ hfetch => .pure hfetch
      | none => exact hfetch.bind fun _ hfetch => .pure (by simp [hfetch])
  | false =>
      have hfetch := load_refers hsupplies hpasses.2.1 (reg?.getD .t0)
      cases reg? with
      | some => exact hfetch.bind fun _ hfetch => .pure hfetch
      | none => exact hfetch.bind fun _ hfetch => .pure (by simp [hfetch])

theorem getArg_refers (hsupplies : Supplies labels site placement) (position count : Int)
    (isRecord : Bool) (hstores : site.Stores width operand) :
    Ensures (getArg placement position count operand isRecord) (CodeRefers labels) := by
  refine (Ensures.trivially _).bind fun reg? _ => ?_
  cases isRecord with
  | true =>
      refine (copyRecord_refers hsupplies hstores).bind fun copy hcopy => .pure ?_
      cases reg? <;> simp [hcopy]
  | false =>
      refine (store_refers hsupplies (reg?.getD .t0) hstores).bind fun back hback => .pure ?_
      cases reg? <;> simp [hback]

theorem write_refers (type : Ty) : CodeRefers labels (write type) := by
  cases type <;> simp [write, service]

/-- A quad that fits refers to the labels that its procedure is supplied with. -/
theorem instr_refers (hsupplies : Supplies labels site placement) (frame : Int64) (pushed : Nat)
    {own : List Label} {before after : Pending} {instr : Code.Instr}
    (hfits : site.Fits own before instr after) :
    Ensures (Mips.instr placement frame pushed instr) (fun answer => CodeRefers labels answer.1) := by
  cases hfits with
  | enter => exact .ok (by simp)
  | leave => exact .ok (by simp)
  | nop => exact .ok (by simp)
  | goto => exact .ok (by simp)
  | call =>
      refine .ok ?_
      split <;> simp
  | binary htarget hleft hright =>
      refine (load_refers hsupplies hleft .t0).bind fun first hfirst => ?_
      refine (load_refers hsupplies hright .t1).bind fun second hsecond => ?_
      exact (store_refers hsupplies .t0 htarget).bind fun back hback =>
        .pure (by simp [hfirst, hsecond, hback])
  | @unary op _ _ htarget hsource =>
      refine (load_refers hsupplies hsource .t0).bind fun fetch hfetch => ?_
      refine (store_refers hsupplies .t0 htarget).bind fun back hback => .pure ?_
      cases op <;> simp [hfetch, hback]
  | assign htarget hsource =>
      refine (load_refers hsupplies hsource .t0).bind fun fetch hfetch => ?_
      exact (store_refers hsupplies .t0 htarget).bind fun back hback =>
        .pure (by simp [hfetch, hback])
  | index htarget hbase hoffset =>
      obtain ⟨bytes, hbytes⟩ := Option.isSome_iff_exists.1 hoffset
      simp only [Mips.instr, hbytes]
      refine (addressOf_refers hsupplies hbase .t0).bind fun fetch hfetch => .pure ?_
      simp [hfetch, hsupplies.address htarget]
  | @ifZero condition _ hcondition _ =>
      cases condition with
      | constant =>
          refine .ok ?_
          split <;> simp
      | _ =>
          exact (load_refers hsupplies hcondition .t0).bind fun fetch hfetch =>
            .pure (by simp [hfetch])
  | setArg hpasses =>
      exact (setArg_refers hsupplies _ hpasses).bind fun _ hcode => .pure hcode
  | @getArg _ _ var _ _ _ hvar _ =>
      have hstores : site.Stores var.width (.var var) := ⟨⟨.inr hvar, rfl⟩, rfl⟩
      exact (getArg_refers hsupplies _ _ _ hstores).bind fun _ hcode => .pure hcode
  | setRet hpasses =>
      unfold Mips.instr
      cases hrecord : site.result.isRecord with
      | true =>
          have hstores : site.Stores site.result.size _ := ⟨hpasses.2.1, hpasses.2.2 hrecord⟩
          exact (addressOf_refers hsupplies hstores .v0).bind fun _ hcode => .pure hcode
      | false => exact (load_refers hsupplies hpasses.2.1 .v0).bind fun _ hcode => .pure hcode
  | @getRet temp type _ _ htemp _ =>
      have hstores : site.Stores temp.width (.temp temp) := ⟨⟨htemp, rfl⟩, rfl⟩
      unfold Mips.instr
      cases type.isRecord with
      | true =>
          exact (copyRecord_refers hsupplies hstores).bind fun copy hcopy =>
            .pure (by simp [hcopy])
      | false => exact (store_refers hsupplies .v0 hstores).bind fun _ hcode => .pure hcode
  | output _ hsource =>
      exact (load_refers hsupplies hsource .a0).bind fun fetch hfetch =>
        .pure (by simp [hfetch, write_refers])
  | @input _ type _ htarget =>
      refine (store_refers hsupplies .v0 htarget).bind fun back hback => .pure ?_
      cases type <;> simp [service, hback]

theorem quads_refer (hsupplies : Supplies labels site placement) (frame : Int64)
    {own : List Label} {before after : Pending} {quads : List Quad}
    (hall : site.AllFit own before quads after) :
    ∀ pushed, Ensures (Mips.quads placement frame pushed quads) (fun answer =>
      referredLabels Instr.references answer.1 ⊆ labels) := by
  induction hall with
  | nil => exact fun _ => .ok (List.nil_subset _)
  | @cons _ _ _ quad rest hfits _ ih =>
      intro pushed
      refine (instr_refers hsupplies frame _ hfits).bind fun answer hanswer => ?_
      refine (ih answer.2).bind fun more hmore => .pure ?_
      rw [referredLabels_append, List.append_subset]
      exact ⟨referredLabels_quad hanswer, hmore⟩

/-- The code of the procedures of a program refers to its strings and to its global variables. -/
theorem procedures_refer {program : Program} (hfitting : program.Fitting) (hshaped : program.Shaped)
    (start : Placement) {after : List Procedure} :
    ∀ (before : List Procedure) (pushed : Nat), program.procedures = before ++ after →
      Ensures (Mips.procedures (before.foldl Mips.layOut (layOutGlobals .mips start program)) pushed
        after).2 (fun lines => referredLabels Instr.references lines ⊆ referable program) := by
  induction after with
  | nil => exact fun _ _ _ => .ok (List.nil_subset _)
  | cons procedure after ih =>
      intro before pushed hprocedures
      have hmem : procedure ∈ program.procedures := by simp [hprocedures]
      have hplaced := @placed_layOut .mips frameStart halve program hfitting hshaped before after
        procedure hprocedures Mips.layOut start fun _ _ => rfl
      obtain ⟨_, hall⟩ := (hfitting.procedures procedure hmem).quads_fit
      have hfirst := quads_refer hplaced.supplies (frameSize procedure) hall pushed
      simp only [Mips.procedures]
      split
      · exact .error
      next lines pushed' hlines =>
        have hrest := ih (before ++ [procedure]) pushed' (by simp [hprocedures])
        rw [List.foldl_append] at hrest
        refine .map fun more hmore => ?_
        simp only [referredLabels_append, List.append_subset]
        exact ⟨hfirst _ hlines, hrest more hmore⟩

/-- The labels of the texts that truth values are written as. -/
def boolLabels (program : Program) : List String :=
  if usesBoolRoutine program then ["str_true", "str_false"] else []

theorem definedLabels_dataLines {program : Program} (hnamed : program.Named) :
    definedLabels (dataLines program) =
      stringLabels program ++ boolLabels program ++ program.globals.flatMap globalLabels := by
  have hdata : definedLabels [(.directive ".data" : Line Instr)] = [] := rfl
  have halign : definedLabels [(.directive ".align 3" : Line Instr)] = [] := rfl
  have hbools : definedLabels (if usesBoolRoutine program then
      [.directive "str_true: .asciiz \"true\"", .directive "str_false: .asciiz \"false\""]
        else [] : List (Line Instr)) = boolLabels program := by
    unfold boolLabels
    split <;> rfl
  simp only [dataLines, definedLabels_append, definedLabels_strings program ": .asciiz " rfl,
    definedLabels_globals hnamed ": .word 0" rfl, hdata, halign, hbools, List.nil_append,
    List.append_nil]

theorem referredLabels_startLines (program : Program) :
    referredLabels Instr.references (startLines program) = boolLabels program := by
  unfold startLines boolLabels
  split <;> rfl

end Mips

namespace X64

theorem definedLabels_dataLines {program : Program} (hnamed : program.Named) :
    definedLabels (dataLines program) =
      stringLabels program ++ program.globals.flatMap globalLabels := by
  have hdata : definedLabels [(.directive ".data" : Line Instr)] = [] := rfl
  have halign : definedLabels [(.directive ".align 8" : Line Instr)] = [] := rfl
  simp only [dataLines, definedLabels_append, definedLabels_strings program ": .asciz " rfl,
    definedLabels_globals hnamed ": .quad 0" rfl, hdata, halign, List.nil_append, List.append_nil]

end X64

/-! ## Accepted programs -/

/-- No global variable of a program is called like a slot of another one, and each has a slot. -/
def Plain (program : Program) : Prop :=
  (∀ var ∈ program.globals, ∀ other ∈ program.globals, ¬ Shadows var other) ∧
    ∀ var ∈ program.globals, 0 < slotCount var.width

/-- How data is labelled, given the code that refers to it. No label is defined twice unless a
variable is called like a slot of another one, and a label that is not defined although the code
refers to it belongs to a variable without slots. -/
structure Labelled {Instr : Type} (references : Instr → List String) (program : Program)
    (data text : List (Line Instr)) : Prop where
  distinct : (definedLabels data).Nodup ↔
    ∀ var ∈ program.globals, ∀ other ∈ program.globals, ¬ Shadows var other
  defined : ∀ label ∈ referredLabels references text, label ∈ definedLabels data ∨
    ∃ var ∈ program.globals, slotCount var.width = 0 ∧ label = globalLabel var 0

/-- Every label of data is defined once, and all that the code refers to are defined. -/
def DefinedOnce {Instr : Type} (references : Instr → List String) (data text : List (Line Instr)) :
    Prop :=
  (definedLabels data).Nodup ∧ referredLabels references text ⊆ definedLabels data

theorem Labelled.definedOnce {Instr : Type} {references : Instr → List String} {program : Program}
    {data text : List (Line Instr)} (hlabelled : Labelled references program data text)
    (hplain : Plain program) : DefinedOnce references data text := by
  refine ⟨hlabelled.distinct.2 hplain.1, fun label hlabel => ?_⟩
  rcases hlabelled.defined label hlabel with hdefined | ⟨var, hvar, hcount, _⟩
  · exact hdefined
  · exact absurd hcount (hplain.2 var hvar).ne'

theorem X64.labelled {program : Program} (hfitting : program.Fitting) (hshaped : program.Shaped)
    (hnamed : program.Named) (start : Placement) :
    ∃ lines, (X64.emit program start).2 = .ok (renderLines X64.Instr.render
        (X64.dataLines program ++ [.directive ".globl main", .directive ".text"] ++ lines)) ∧
      Labelled X64.Instr.references program (X64.dataLines program) lines := by
  have hrefers := X64.procedures_refer hfitting hshaped start [] 0 rfl
  obtain ⟨lines, hlines, _⟩ :=
    X64.procedures_succeed hfitting.procedures (layOutGlobals .x64 start program) 0
  refine ⟨lines, by simp only [X64.emit, hlines]; rfl, ?_, ?_⟩
  · rw [X64.definedLabels_dataLines hnamed]
    refine nodup_labels hnamed (nodup_stringLabels program) ?_
    simp [stringLabels, head?_stringLabel]
  · intro label hlabel
    rw [X64.definedLabels_dataLines hnamed]
    exact defined_of_referable (hrefers lines hlines hlabel)

/-- The labels of strings end in digits, so none of them is that of a truth value. -/
theorem stringLabel_ne_of_bool (index : Nat) :
    ¬ (stringLabel index = "str_true" ∨ stringLabel index = "str_false") := by
  have hdigits : ∀ word : String, 'e' ∈ word.toList → stringLabel index ≠ "str_" ++ word := by
    intro word hmem heq
    rw [← (String.append_right_inj "str_").1 heq] at hmem
    exact absurd (isDigit_of_mem_toString hmem) (by decide)
  rintro (heq | heq)
  · exact hdigits "true" (by decide) heq
  · exact hdigits "false" (by decide) heq

theorem Mips.labelled {program : Program} (hfitting : program.Fitting) (hshaped : program.Shaped)
    (hnamed : program.Named) (start : Placement) :
    ∃ lines, (Mips.emit program start).2 = .ok (renderLines Mips.Instr.render
        (Mips.dataLines program ++ Mips.startLines program ++ lines)) ∧
      Labelled Mips.Instr.references program (Mips.dataLines program)
        (Mips.startLines program ++ lines) := by
  have hrefers := Mips.procedures_refer hfitting hshaped start [] 0 rfl
  obtain ⟨lines, hlines, _⟩ :=
    Mips.procedures_succeed hfitting.procedures (layOutGlobals .mips start program) 0
  have hbools : ∀ label ∈ boolLabels program, label = "str_true" ∨ label = "str_false" := by
    unfold boolLabels
    split <;> simp
  refine ⟨lines, by simp only [Mips.emit, hlines]; rfl, ?_, ?_⟩
  · rw [Mips.definedLabels_dataLines hnamed]
    refine nodup_labels hnamed (List.nodup_append.2 ⟨nodup_stringLabels program, ?_, ?_⟩) ?_
    · unfold boolLabels
      split <;> decide
    · rintro label hlabel other hother rfl
      obtain ⟨index, _, rfl⟩ := List.mem_map.1 hlabel
      exact stringLabel_ne_of_bool index (hbools _ hother)
    · intro label hlabel
      rcases List.mem_append.1 hlabel with hlabel | hlabel
      · obtain ⟨index, _, rfl⟩ := List.mem_map.1 hlabel
        exact head?_stringLabel index
      · rcases hbools label hlabel with rfl | rfl <;> rfl
  · intro label hlabel
    rw [Mips.definedLabels_dataLines hnamed]
    rw [referredLabels_append, Mips.referredLabels_startLines, List.mem_append] at hlabel
    rcases hlabel with hlabel | hlabel
    · exact .inl (List.mem_append_left _ (List.mem_append_right _ hlabel))
    · refine (defined_of_referable (hrefers lines hlines hlabel)).imp_left fun hdefined => ?_
      simp only [List.mem_append] at hdefined ⊢
      tauto

/-- The labels of data in the assembly code of accepted programs, for either machine. If a program is
plain, then every label of data is defined once, and all labels of data that the code refers to are
defined. Apart from that, a label is defined twice exactly if a global variable of one slot is called
like a slot of another variable, and a label of data is missing only if it belongs to a global
variable without slots. -/
theorem labelled_of_accepted (bytes : List UInt8) (tree : Tree.Program)
    (hparse : (Tree.parse (.ofText (Text.Utf8.decode bytes))).program = some tree)
    (state : Resolution.State) (resolved : Resolution.Resolved Tree.Program)
    (hresolve : resolve {} tree = .ok (state, resolved)) (hok : resolved.ok = true)
    (checked : Typing.Checked Tree.Program) (hcheck : check resolved.tree = .ok checked)
    (hmessages : checked.messages = []) :
    ∃ code, Code.lower checked.tree = .ok code ∧
      ∀ program ∈ [code, code.optimize], ∀ placement,
        (∃ lines, (emit .x64 program placement).2 = .ok (renderLines X64.Instr.render
            (X64.dataLines program ++ [.directive ".globl main", .directive ".text"] ++ lines)) ∧
          Labelled X64.Instr.references program (X64.dataLines program) lines ∧
          (Plain program → DefinedOnce X64.Instr.references (X64.dataLines program) lines)) ∧
        ∃ lines, (emit .mips program placement).2 = .ok (renderLines Mips.Instr.render
            (Mips.dataLines program ++ Mips.startLines program ++ lines)) ∧
          Labelled Mips.Instr.references program (Mips.dataLines program)
            (Mips.startLines program ++ lines) ∧
          (Plain program → DefinedOnce Mips.Instr.references (Mips.dataLines program)
            (Mips.startLines program ++ lines)) := by
  obtain ⟨code, hlower, hall⟩ := Code.exists_lower_named hparse hresolve hok hcheck hmessages
  refine ⟨code, hlower, ?_⟩
  intro program hprogram placement
  obtain ⟨hfitting, hshaped, _, hnamed⟩ := hall program hprogram
  obtain ⟨lines, hlines, hlabelled⟩ := X64.labelled hfitting hshaped hnamed placement
  obtain ⟨lines', hlines', hlabelled'⟩ := Mips.labelled hfitting hshaped hnamed placement
  exact ⟨⟨lines, hlines, hlabelled, hlabelled.definedOnce⟩,
    ⟨lines', hlines', hlabelled', hlabelled'.definedOnce⟩⟩

instance (var other : Variable) : Decidable (Shadows var other) :=
  inferInstanceAs (Decidable (_ ∧ _ ∧ _))

instance (program : Program) : Decidable (Plain program) :=
  inferInstanceAs (Decidable (_ ∧ _))

/-- A program whose global variables are almost called like the slots of a record, which writes
strings and truth values. -/
def almostText : String :=
  "record Pair \x7b int a; bool b; \x7d Pair p; int p_f2; bool p_f; string q_f0; " ++
  "void main() \x7b p[b] = p_f; p_f2 = p[a]; report p[b]; q_f0 = \"str_true\"; report q_f0; \x7d"

/-- The program is plain, so its labels of data are defined once. -/
theorem labelled_of_accepted_almost :
    ∃ tree code, Code.accepted? almostText = some tree ∧ Code.lower tree = .ok code ∧ Plain code ∧
      (∃ lines, (emit .x64 code .empty).2 = .ok (renderLines X64.Instr.render
          (X64.dataLines code ++ [.directive ".globl main", .directive ".text"] ++ lines)) ∧
        DefinedOnce X64.Instr.references (X64.dataLines code) lines) ∧
      ∃ lines, (emit .mips code .empty).2 = .ok (renderLines Mips.Instr.render
          (Mips.dataLines code ++ Mips.startLines code ++ lines)) ∧
        DefinedOnce Mips.Instr.references (Mips.dataLines code) (Mips.startLines code ++ lines) := by
  have hsample : ∃ tree ∈ Code.accepted? almostText, ∃ code ∈ (Code.lower tree).toOption,
      Plain code := by
    unfold Code.accepted? almostText
    repeat rewrite [String.toList_append]
    repeat rewrite [String.toList_ofList]
    decide +kernel
  obtain ⟨program, haccepted, code, hcode, hplain⟩ := hsample
  obtain ⟨tree, state, resolved, checked, hparse, hresolve, hok, hcheck, hmessages, rfl⟩ :=
    Code.exists_of_accepted? haccepted
  rw [← Text.Utf8.decode_encode almostText.toList] at hparse
  obtain ⟨code', hlower, hlabelled⟩ := labelled_of_accepted _ tree hparse state resolved hresolve
    hok checked hcheck hmessages
  obtain rfl : code' = code := Except.ok.inj (hlower.symm.trans (Code.ok_of_toOption hcode))
  obtain ⟨⟨lines, hlines, _, honce⟩, lines', hlines', _, honce'⟩ :=
    hlabelled code' List.mem_cons_self .empty
  exact ⟨checked.tree, code', haccepted, hlower, hplain, ⟨lines, hlines, honce hplain⟩,
    lines', hlines', honce' hplain⟩

/-- A program with a global variable that is called like a slot of a record, and with a record that
has no fields and is passed to a function. -/
def shadowText : String :=
  "record Pair \x7b int a; int b; \x7d record Empty \x7b \x7d Pair p; int p_f0; Empty e; " ++
  "void use(Empty x) \x7b \x7d void main() \x7b p_f0 = 1; report p[a]; use(e); \x7d"

/-- The program is accepted, but a label of its data is defined twice and another one is not defined
although the code refers to it. -/
theorem labels_clash_shadow :
    ∃ tree code, Code.accepted? shadowText = some tree ∧ Code.lower tree = .ok code ∧
      ¬ (definedLabels (X64.dataLines code)).Nodup ∧ ¬ (definedLabels (Mips.dataLines code)).Nodup ∧
      ∃ lines, (emit .x64 code .empty).2 = .ok (renderLines X64.Instr.render
          (X64.dataLines code ++ [.directive ".globl main", .directive ".text"] ++ lines)) ∧
        "var_e_f0" ∈ referredLabels X64.Instr.references lines ∧
        "var_e_f0" ∉ definedLabels (X64.dataLines code) := by
  have hsample : ∃ tree ∈ Code.accepted? shadowText, ∃ code ∈ (Code.lower tree).toOption,
      ¬ (definedLabels (X64.dataLines code)).Nodup ∧ ¬ (definedLabels (Mips.dataLines code)).Nodup ∧
      ∃ lines ∈ (X64.procedures (layOutGlobals .x64 .empty code) 0 code.procedures).2.toOption,
        "var_e_f0" ∈ referredLabels X64.Instr.references lines ∧
        "var_e_f0" ∉ definedLabels (X64.dataLines code) := by
    unfold Code.accepted? shadowText
    repeat rewrite [String.toList_append]
    repeat rewrite [String.toList_ofList]
    decide +kernel
  obtain ⟨tree, haccepted, code, hcode, hx64, hmips, lines, hlines, hmissing⟩ := hsample
  refine ⟨tree, code, haccepted, Code.ok_of_toOption hcode, hx64, hmips, lines, ?_, hmissing⟩
  simp only [emit, X64.emit, Code.ok_of_toOption hlines]
  rfl

end Shanty.Target
