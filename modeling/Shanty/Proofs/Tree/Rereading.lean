/-
# Reading the canonical form

The tree that the grammar gives to some tokens can be written again, because its names and literals
come from tokens. And tokens that look like the words of its canonical form make up the same tree
again: an operand is an atom or stands in parentheses there, so it is a term, and a term may stand
at every level of operators.
-/

import Shanty.Proofs.Tree.Canonical
import Shanty.Proofs.Tree.Spans
import Shanty.Proofs.Tree.Grammar.Completeness

namespace Shanty.Tree.Grammar

open Token (look maxInt Proper Word)

/-! ## Trees made of tokens can be written -/

/-- All tokens are spelled properly. -/
def AllProper (tokens : List Token) : Prop := ∀ token ∈ tokens, token.Proper

@[simp]
theorem allProper_nil : AllProper [] := by simp [AllProper]

@[simp]
theorem allProper_cons {first : Token} {rest : List Token} :
    AllProper (first :: rest) ↔ first.Proper ∧ AllProper rest := List.forall_mem_cons

@[simp]
theorem allProper_append {front back : List Token} :
    AllProper (front ++ back) ↔ AllProper front ∧ AllProper back := List.forall_mem_append

theorem lexeme_of_kind {token : Token} {kind : Token.Kind} (hproper : token.Proper)
    (hkind : token.kind = kind) : Token.Lexer.Lexeme kind token.text.toList :=
  hkind ▸ hproper.isLexeme

theorem nameAt_spelled {number : Nat} {token : Token} (hkind : token.kind = .ident)
    (hproper : token.Proper) : (nameAt number token).Spelled := ⟨rfl, lexeme_of_kind hproper hkind⟩

theorem IsType.spelled {token : Token} {type : TypeName} (htype : IsType token type)
    (hproper : token.Proper) : type.Spelled := by
  cases htype with
  | named hkind => exact lexeme_of_kind hproper hkind
  | _ => trivial

/-- The phrase inside of all parentheses. -/
theorem Enclosed.inside {phrase : List Token → Prop} {tokens : List Token}
    (henclosed : Enclosed phrase tokens) : ∃ inner, phrase inner ∧ inner ⊆ tokens := by
  induction henclosed with
  | bare hbare => exact ⟨_, hbare, List.Subset.refl _⟩
  | paren _ _ _ ih =>
      obtain ⟨inner, hphrase, hsubset⟩ := ih
      exact ⟨inner, hphrase, fun _ hmem => .tail _ (List.mem_append_left _ (hsubset hmem))⟩

theorem Enclosed.spelled {phrase : List Token → Prop} {tokens : List Token} {p : Prop}
    (henclosed : Enclosed phrase tokens) (hphrase : ∀ {tokens}, phrase tokens → AllProper tokens → p)
    (hproper : AllProper tokens) : p := by
  obtain ⟨_, hinner, hsubset⟩ := henclosed.inside
  exact hphrase hinner fun token hmem => hproper token (hsubset hmem)

theorem IsPlace.spelled {start stop : Nat} {tokens : List Token} {place : Expr}
    (hplace : IsPlace start tokens place stop) (hproper : AllProper tokens) : place.Spelled := by
  induction hplace with
  | name hkind => exact nameAt_spelled hkind (hproper _ (.head _))
  | field _ _ hselector _ ih =>
      simp only [allProper_append, allProper_cons] at hproper
      exact ⟨ih hproper.1, nameAt_spelled hselector hproper.2.2.1⟩

mutual

theorem IsExpr.spelled : ∀ {start stop : Nat} {tokens : List Token} {expr : Expr},
    IsExpr start tokens expr stop → AllProper tokens → expr.Spelled
  | _, _, _, _, .binary hbinary, hproper => hbinary.spelled hproper
  | _, _, _, _, .assign hassign, hproper => hassign.spelled hproper

theorem IsAssign.spelled : ∀ {start stop : Nat} {tokens : List Token} {node : Node}
    {target source : Expr}, IsAssign start tokens node target source stop → AllProper tokens →
    target.Spelled ∧ source.Spelled
  | _, _, _, _, _, _, .mk htarget _ hsource, hproper => by
      simp only [allProper_append, allProper_cons] at hproper
      exact ⟨htarget.spelled IsPlace.spelled hproper.1, hsource.spelled hproper.2.2⟩

theorem IsBinary.spelled : ∀ {level start stop : Nat} {tokens : List Token} {expr : Expr},
    IsBinary level start tokens expr stop → AllProper tokens → expr.Spelled
  | _, _, _, _, _, .unary hunary, hproper => hunary.spelled hproper
  | _, _, _, _, _, .tighter hbinary, hproper => hbinary.spelled hproper
  | _, _, _, _, _, .operator hleft _ hright, hproper => by
      simp only [allProper_append, allProper_cons] at hproper
      exact ⟨hleft.spelled hproper.1, hright.spelled hproper.2.2⟩

theorem IsUnary.spelled : ∀ {start stop : Nat} {tokens : List Token} {expr : Expr},
    IsUnary start tokens expr stop → AllProper tokens → expr.Spelled
  | _, _, _, _, .operator _ hoperand, hproper => hoperand.spelled (allProper_cons.1 hproper).2
  | _, _, _, _, .term hterm, hproper => hterm.spelled hproper

theorem IsTerm.spelled : ∀ {start stop : Nat} {tokens : List Token} {expr : Expr},
    IsTerm start tokens expr stop → AllProper tokens → expr.Spelled
  | _, _, _, _, .int hkind, hproper => (hproper _ (.head _)).small hkind
  | _, _, _, _, .string hkind, hproper => lexeme_of_kind (hproper _ (.head _)) hkind
  | _, _, _, _, .true _, _ | _, _, _, _, .false _, _ => trivial
  | _, _, _, _, .place hplace, hproper => hplace.spelled hproper
  | _, _, _, _, .call hcall, hproper => hcall.spelled hproper
  | _, _, _, _, .paren _ hexpr _, hproper => by
      simp only [allProper_cons, allProper_append] at hproper
      exact hexpr.spelled hproper.2.1

theorem IsCall.spelled : ∀ {start stop : Nat} {tokens : List Token} {node : Node} {callee : Ident}
    {args : List Expr}, IsCall start tokens node callee args stop → AllProper tokens →
    callee.Spelled ∧ Expr.AllSpelled args
  | _, _, _, _, _, _, .empty hname _ _, hproper => ⟨nameAt_spelled hname (hproper _ (.head _)), trivial⟩
  | _, _, _, _, _, _, .mk hname _ hargs _, hproper => by
      simp only [allProper_cons, allProper_append] at hproper
      exact ⟨nameAt_spelled hname hproper.1, hargs.spelled hproper.2.2.1⟩

theorem IsArguments.spelled : ∀ {start stop : Nat} {tokens : List Token} {args : List Expr},
    IsArguments start tokens args stop → AllProper tokens → Expr.AllSpelled args
  | _, _, _, _, .one hexpr, hproper => ⟨hexpr.spelled hproper, trivial⟩
  | _, _, _, _, .more hexpr _ hothers, hproper => by
      simp only [allProper_append, allProper_cons] at hproper
      exact ⟨hexpr.spelled hproper.1, hothers.spelled hproper.2.2⟩

end

theorem IsVarDecl.spelled {start stop : Nat} {tokens : List Token} {decl : VarDecl}
    (hdecl : IsVarDecl start tokens decl stop) (hproper : AllProper tokens) : decl.Spelled := by
  cases hdecl with
  | mk htype hname _ =>
      simp only [allProper_cons] at hproper
      exact ⟨htype.spelled hproper.1, nameAt_spelled hname hproper.2.1⟩

mutual

theorem IsStmt.spelled : ∀ {start stop : Nat} {tokens : List Token} {stmt : Stmt},
    IsStmt start tokens stmt stop → AllProper tokens → stmt.Spelled
  | _, _, _, _, .declare hdecl, hproper => hdecl.spelled hproper
  | _, _, _, _, .receive _ hplace _, hproper => by
      simp only [allProper_cons, allProper_append] at hproper
      exact hplace.spelled IsPlace.spelled hproper.2.1
  | _, _, _, _, .report _ hsource _, hproper => by
      simp only [allProper_cons, allProper_append] at hproper
      exact hsource.spelled hproper.2.1
  | _, _, _, _, .leave _ _, _ => trivial
  | _, _, _, _, .return _ hvalue _, hproper => by
      simp only [allProper_cons, allProper_append] at hproper
      exact hvalue.spelled hproper.2.1
  | _, _, _, _, .increment hplace _ _, hproper | _, _, _, _, .decrement hplace _ _, hproper =>
      hplace.spelled IsPlace.spelled (allProper_append.1 hproper).1
  | _, _, _, _, .assign hassign _, hproper =>
      hassign.spelled IsAssign.spelled (allProper_append.1 hproper).1
  | _, _, _, _, .call hcall _, hproper => hcall.spelled IsCall.spelled (allProper_append.1 hproper).1
  | _, _, _, _, .if _ _ hcondition _ hbody, hproper
  | _, _, _, _, .while _ _ hcondition _ hbody, hproper => by
      simp only [allProper_cons, allProper_append] at hproper
      obtain ⟨_, _, hcond, _, hblock⟩ := hproper
      exact ⟨hcondition.spelled hcond, hbody.spelled hblock⟩
  | _, _, _, _, .ifElse _ _ hcondition _ hbody _ hotherwise, hproper => by
      simp only [allProper_cons, allProper_append] at hproper
      obtain ⟨_, _, hcond, _, hblock, _, hblock'⟩ := hproper
      exact ⟨hcondition.spelled hcond, hbody.spelled hblock, hotherwise.spelled hblock'⟩

theorem IsBlock.spelled : ∀ {start stop : Nat} {tokens : List Token} {body : List Stmt}
    {close : Token}, IsBlock start tokens body close stop → AllProper tokens → Stmt.AllSpelled body
  | _, _, _, _, _, .mk _ hbody _, hproper => by
      simp only [allProper_cons, allProper_append] at hproper
      exact hbody.spelled hproper.2.1

theorem IsBody.spelled : ∀ {start stop : Nat} {tokens : List Token} {body : List Stmt},
    IsBody start tokens body stop → AllProper tokens → Stmt.AllSpelled body
  | _, _, _, _, .nil, _ => trivial
  | _, _, _, _, .cons hfirst hrest, hproper => by
      rw [allProper_append] at hproper
      exact ⟨hfirst.spelled hproper.1, hrest.spelled hproper.2⟩

end

theorem IsFields.spelled {start stop : Nat} {tokens : List Token} {fields : List VarDecl}
    (hfields : IsFields start tokens fields stop) (hproper : AllProper tokens) :
    ∀ field ∈ fields, field.Spelled := by
  induction hfields with
  | nil => simp
  | cons hfirst _ ih =>
      rw [allProper_append] at hproper
      exact List.forall_mem_cons.2 ⟨hfirst.spelled hproper.1, ih hproper.2⟩

theorem IsFormal.spelled {start stop : Nat} {tokens : List Token} {param : VarDecl}
    (hparam : IsFormal start tokens param stop) (hproper : AllProper tokens) : param.Spelled := by
  cases hparam with
  | mk htype hname =>
      simp only [allProper_cons] at hproper
      exact ⟨htype.spelled hproper.1, nameAt_spelled hname hproper.2.1⟩

theorem IsFormals.spelled {start stop : Nat} {tokens : List Token} {params : List VarDecl}
    (hparams : IsFormals start tokens params stop) (hproper : AllProper tokens) :
    ∀ param ∈ params, param.Spelled := by
  induction hparams with
  | one hfirst => exact List.forall_mem_singleton.2 (hfirst.spelled hproper)
  | more hfirst _ _ ih =>
      simp only [allProper_append, allProper_cons] at hproper
      exact List.forall_mem_cons.2 ⟨hfirst.spelled hproper.1, ih hproper.2.2⟩

theorem IsParams.spelled {start stop : Nat} {tokens : List Token} {params : List VarDecl}
    (hparams : IsParams start tokens params stop) (hproper : AllProper tokens) :
    ∀ param ∈ params, param.Spelled := by
  cases hparams with
  | empty => simp
  | mk _ hformals _ =>
      simp only [allProper_cons, allProper_append] at hproper
      exact hformals.spelled hproper.2.1

theorem IsDecl.spelled {start stop : Nat} {tokens : List Token} {decl : Decl}
    (hdecl : IsDecl start tokens decl stop) (hproper : AllProper tokens) : decl.Spelled := by
  cases hdecl with
  | var hdecl => exact hdecl.spelled hproper
  | record _ hname _ hfields _ =>
      simp only [allProper_cons, allProper_append] at hproper
      obtain ⟨_, hident, _, hproper, _⟩ := hproper
      exact ⟨nameAt_spelled hname hident, hfields.spelled hproper⟩
  | fn htype hname hparams hblock =>
      simp only [allProper_cons, allProper_append] at hproper
      obtain ⟨hlabel, hident, hformals, hbody⟩ := hproper
      exact ⟨htype.spelled hlabel, nameAt_spelled hname hident, hparams.spelled hformals,
        hblock.spelled hbody⟩

theorem IsDecls.spelled {start stop : Nat} {tokens : List Token} {decls : List Decl}
    (hdecls : IsDecls start tokens decls stop) (hproper : AllProper tokens) :
    ∀ decl ∈ decls, decl.Spelled := by
  induction hdecls with
  | nil => simp
  | cons hfirst _ ih =>
      rw [allProper_append] at hproper
      exact List.forall_mem_cons.2 ⟨hfirst.spelled hproper.1, ih hproper.2⟩

theorem IsProgram.spelled {body : List Token} {last : Token} {program : Program}
    (hprogram : IsProgram (body ++ [last]) program) (hproper : AllProper body) :
    ∀ decl ∈ program.decls, decl.Spelled := by
  generalize htokens : body ++ [last] = tokens at hprogram
  cases hprogram with
  | mk hdecls _ _ =>
      obtain ⟨rfl, _⟩ := List.append_inj' htokens rfl
      exact hdecls.spelled hproper

/-! ## Reading the words of a tree again -/

/-- Tokens that look like some words make up the same tree, up to spans. -/
def Rereads {α : Type} (spanless : α → α) (words : List Word) (derives : List Token → α → Prop)
    (tree : α) : Prop :=
  ∀ ⦃tokens : List Token⦄, tokens.map look = words →
    ∃ tree', spanless tree' = spanless tree ∧ derives tokens tree'

theorem look_eq_iff {token : Token} {kind : Token.Kind} {text : String} :
    look token = (kind, text) ↔ token.kind = kind ∧ token.text = text := Prod.mk.injEq .. ▸ Iff.rfl

theorem look_eq_word_iff {token : Token} {ident : Ident} :
    look token = ident.word ↔ token.kind = .ident ∧ token.text = ident.name := look_eq_iff

theorem nameAt_spanless {number : Nat} {token token' : Token} (htext : token'.text = token.text) :
    (nameAt number token').spanless = (nameAt number token).spanless := by
  simp [nameAt, Ident.spanless, Node.spanless, htext]

theorem IsType.reread {label token : Token} {type : TypeName} (htype : IsType label type)
    (hlook : look token = type.word) : IsType token type := by
  cases htype with
  | int => exact .int (look_eq_iff.1 hlook).1
  | bool => exact .bool (look_eq_iff.1 hlook).1
  | string => exact .string (look_eq_iff.1 hlook).1
  | void => exact .void (look_eq_iff.1 hlook).1
  | named =>
      obtain ⟨hkind, htext⟩ := look_eq_iff.1 hlook
      exact htext ▸ .named hkind

theorem decimalValue_toString (value : Nat) :
    Text.decimalValue (toString value).toList = value := by
  have hdigits : (toString value).toList = Nat.toDigits 10 value := Nat.toList_repr
  rw [hdigits, Text.decimalValue_toDigits]

/-- Operands joined at a level may stand at every looser one. -/
theorem IsBinary.loosen {level level' : Nat} (hle : level' ≤ level) {start stop : Nat}
    {tokens : List Token} {expr : Expr} (hbinary : IsBinary level start tokens expr stop) :
    IsBinary level' start tokens expr stop := by
  induction hle with
  | refl => exact hbinary
  | step _ ih => exact ih (.tighter hbinary)

theorem IsTerm.isBinary {start stop : Nat} {tokens : List Token} {expr : Expr}
    (hterm : IsTerm start tokens expr stop) {level : Nat} (hle : level ≤ 6) :
    IsBinary level start tokens expr stop := (IsBinary.unary (.term hterm)).loosen hle

theorem BinaryOp.level_lt (op : BinaryOp) : op.level < 6 := by cases op <;> decide

theorem IsPlace.isCompound {start stop : Nat} {tokens : List Token} {place : Expr}
    (hplace : IsPlace start tokens place stop) : place.isCompound = false := by
  cases hplace <;> rfl

theorem IsPlace.encloseWords {start stop : Nat} {tokens : List Token} {place : Expr}
    (hplace : IsPlace start tokens place stop) (words : List Word) :
    place.encloseWords words = words := by
  rw [Expr.encloseWords, hplace.isCompound]
  rfl

theorem IsPlace.rereads {start stop : Nat} {tokens : List Token} {place : Expr}
    (hplace : IsPlace start tokens place stop) :
    Rereads Expr.spanless place.words (IsPlace start · · stop) place := by
  induction hplace with
  | name _ =>
      intro tokens htokens
      simp only [Expr.words, List.map_eq_cons_iff, List.map_eq_nil_iff, look_eq_word_iff] at htokens
      obtain ⟨token, _, rfl, ⟨hkind, htext⟩, rfl⟩ := htokens
      refine ⟨_, ?_, .name hkind⟩
      exact congrArg Expr.name (nameAt_spanless htext)
  | field hbase _ _ _ ih =>
      intro tokens htokens
      rw [Expr.words, hbase.encloseWords] at htokens
      simp only [List.map_eq_append_iff, List.map_eq_cons_iff, List.map_eq_nil_iff,
        look_eq_word_iff, look_eq_iff] at htokens
      obtain ⟨front, _, rfl, hfront, opening, _, rfl, hopening, selector, _, rfl, hselector, close, _,
        rfl, hclose, rfl⟩ := htokens
      obtain ⟨base, hsame, hbase⟩ := ih hfront
      refine ⟨_, ?_, .field hbase hopening.1 hselector.1 hclose.1⟩
      rw [Expr.spanless, Expr.spanless, hsame, nameAt_spanless hselector.2]
      rfl

/-- Expressions are read again, and those that need no parentheses as terms. -/
def RereadsExpr (start : Nat) (expr : Expr) (stop : Nat) : Prop :=
  Rereads Expr.spanless expr.words (IsExpr start · · stop) expr ∧
    Rereads Expr.spanless (expr.encloseWords expr.words) (IsTerm start · · stop) expr

/-- An expression that needs parentheses is a term in parentheses. -/
theorem RereadsExpr.compound {start stop : Nat} {expr : Expr} (hcompound : expr.isCompound = true)
    (hrereads : Rereads Expr.spanless expr.words (IsExpr start · · stop) expr) :
    RereadsExpr start expr stop := by
  refine ⟨hrereads, ?_⟩
  intro tokens htokens
  rw [Expr.encloseWords, if_pos hcompound] at htokens
  simp only [List.map_eq_append_iff, List.map_eq_cons_iff, List.map_eq_nil_iff, look_eq_iff]
    at htokens
  obtain ⟨opening, _, rfl, hopening, inner, _, rfl, hinner, close, _, rfl, hclose, rfl⟩ := htokens
  obtain ⟨expr', hsame, hexpr⟩ := hrereads hinner
  exact ⟨expr', hsame, .paren hopening.1 hexpr hclose.1⟩

theorem RereadsExpr.simple {start stop : Nat} {expr : Expr} (hsimple : expr.isCompound = false)
    (hrereads : Rereads Expr.spanless expr.words (IsTerm start · · stop) expr) :
    RereadsExpr start expr stop := by
  refine ⟨?_, ?_⟩
  · intro tokens htokens
    obtain ⟨expr', hsame, hterm⟩ := hrereads htokens
    exact ⟨expr', hsame, hterm.isExpr⟩
  · rw [Expr.encloseWords, hsimple]
    exact hrereads

/-- The parts of an assignment are read again. -/
def RereadsAssign (start : Nat) (node : Node) (target source : Expr) (stop : Nat) : Prop :=
  ∀ ⦃tokens : List Token⦄, tokens.map look = (Expr.assign node target source).words →
    ∃ node' target' source', node'.spanless = node.spanless ∧ target'.spanless = target.spanless ∧
      source'.spanless = source.spanless ∧ IsAssign start tokens node' target' source' stop

/-- The parts of a call are read again. -/
def RereadsCall (start : Nat) (node : Node) (callee : Ident) (args : List Expr) (stop : Nat) : Prop :=
  ∀ ⦃tokens : List Token⦄, tokens.map look = (Expr.call node callee args).words →
    ∃ node' callee' args', node'.spanless = node.spanless ∧ callee'.spanless = callee.spanless ∧
      Expr.spanlessAll args' = Expr.spanlessAll args ∧ IsCall start tokens node' callee' args' stop

/-- Arguments are read again. -/
def RereadsArguments (start : Nat) (args : List Expr) (stop : Nat) : Prop :=
  ∃ first rest, args = first :: rest ∧ Rereads Expr.spanlessAll
    (first.words ++ Expr.moreWords rest) (IsArguments start · · stop) args

mutual

theorem IsExpr.rereads : ∀ {start stop : Nat} {tokens : List Token} {expr : Expr},
    IsExpr start tokens expr stop → RereadsExpr start expr stop
  | _, _, _, _, .binary hbinary => hbinary.rereads
  | _, _, _, _, .assign hassign => by
      refine .compound rfl ?_
      intro tokens htokens
      obtain ⟨node, target, source, hnode, htarget, hsource, hassign⟩ := hassign.rereads htokens
      refine ⟨_, ?_, .assign hassign⟩
      rw [Expr.spanless, Expr.spanless, hnode, htarget, hsource]

theorem IsAssign.rereads : ∀ {start stop : Nat} {tokens : List Token} {node : Node}
    {target source : Expr}, IsAssign start tokens node target source stop →
    RereadsAssign start node target source stop
  | _, _, _, _, _, _, .mk htarget _ hsource => by
      intro tokens htokens
      obtain ⟨_, hplace, _⟩ := htarget.inside
      rw [Expr.words, hplace.encloseWords] at htokens
      simp only [List.map_eq_append_iff, List.map_eq_cons_iff, look_eq_iff] at htokens
      obtain ⟨left, _, rfl, hleft, sign, right, rfl, hsign, hright⟩ := htokens
      obtain ⟨target, htarget, hplace⟩ := hplace.rereads hleft
      obtain ⟨source, hsource, hterm⟩ := hsource.rereads.2 hright
      refine ⟨_, target, source, ?_, htarget, hsource, .mk (.bare hplace) hsign.1 hterm.isExpr⟩
      rfl

theorem IsBinary.rereads : ∀ {level start stop : Nat} {tokens : List Token} {expr : Expr},
    IsBinary level start tokens expr stop → RereadsExpr start expr stop
  | _, _, _, _, _, .unary hunary => hunary.rereads
  | _, _, _, _, _, .tighter hbinary => hbinary.rereads
  | _, _, _, _, _, @IsBinary.operator _ _ _ op _ _ _ _ _ hleft _ hright => by
      refine .compound rfl ?_
      intro tokens htokens
      have hlevel := BinaryOp.level_lt op
      simp only [Expr.words, List.map_eq_append_iff, List.map_eq_cons_iff, look_eq_iff] at htokens
      obtain ⟨front, _, rfl, hfront, sign, back, rfl, hsign, hback⟩ := htokens
      obtain ⟨left, hsame, hterm⟩ := hleft.rereads.2 hfront
      obtain ⟨right, hsame', hterm'⟩ := hright.rereads.2 hback
      have hbinary := IsBinary.operator (hterm.isBinary (Nat.le_of_lt hlevel)) hsign.1
        (hterm'.isBinary hlevel)
      refine ⟨_, ?_, .binary (hbinary.loosen (Nat.zero_le _))⟩
      rw [Expr.spanless, Expr.spanless, hsame, hsame']
      rfl

theorem IsUnary.rereads : ∀ {start stop : Nat} {tokens : List Token} {expr : Expr},
    IsUnary start tokens expr stop → RereadsExpr start expr stop
  | _, _, _, _, .operator _ hoperand => by
      refine .compound rfl ?_
      intro tokens htokens
      simp only [Expr.words, List.map_eq_cons_iff, look_eq_iff] at htokens
      obtain ⟨sign, rest, rfl, hsign, hrest⟩ := htokens
      obtain ⟨operand, hsame, hterm⟩ := hoperand.rereads.2 hrest
      have hunary := IsBinary.unary (.operator hsign.1 (.term hterm))
      refine ⟨_, ?_, .binary (hunary.loosen (Nat.zero_le _))⟩
      rw [Expr.spanless, Expr.spanless, hsame]
      rfl
  | _, _, _, _, .term hterm => hterm.rereads

theorem IsTerm.rereads : ∀ {start stop : Nat} {tokens : List Token} {expr : Expr},
    IsTerm start tokens expr stop → RereadsExpr start expr stop
  | _, _, _, _, .int _ => by
      refine .simple rfl ?_
      intro tokens htokens
      simp only [Expr.words, List.map_eq_cons_iff, List.map_eq_nil_iff, look_eq_iff] at htokens
      obtain ⟨token, _, rfl, ⟨hkind, htext⟩, rfl⟩ := htokens
      refine ⟨_, ?_, .int hkind⟩
      rw [htext, decimalValue_toString]
      rfl
  | _, _, _, _, .string _ => by
      refine .simple rfl ?_
      intro tokens htokens
      simp only [Expr.words, List.map_eq_cons_iff, List.map_eq_nil_iff, look_eq_iff] at htokens
      obtain ⟨token, _, rfl, ⟨hkind, htext⟩, rfl⟩ := htokens
      refine ⟨_, ?_, .string hkind⟩
      rw [htext]
      rfl
  | _, _, _, _, .true _ => by
      refine .simple rfl ?_
      intro tokens htokens
      simp only [Expr.words, if_true, List.map_eq_cons_iff, List.map_eq_nil_iff, look_eq_iff] at htokens
      obtain ⟨token, _, rfl, ⟨hkind, _⟩, rfl⟩ := htokens
      refine ⟨_, ?_, .true hkind⟩
      rfl
  | _, _, _, _, .false _ => by
      refine .simple rfl ?_
      intro tokens htokens
      simp only [Expr.words, Bool.false_eq_true, if_false, List.map_eq_cons_iff,
        List.map_eq_nil_iff, look_eq_iff] at htokens
      obtain ⟨token, _, rfl, ⟨hkind, _⟩, rfl⟩ := htokens
      refine ⟨_, ?_, .false hkind⟩
      rfl
  | _, _, _, _, .place hplace => by
      refine .simple hplace.isCompound ?_
      intro tokens htokens
      obtain ⟨place, hsame, hplace⟩ := hplace.rereads htokens
      exact ⟨place, hsame, .place hplace⟩
  | _, _, _, _, .call hcall => by
      refine .simple rfl ?_
      intro tokens htokens
      obtain ⟨node, callee, args, hnode, hcallee, hargs, hcall⟩ := hcall.rereads htokens
      refine ⟨_, ?_, .call hcall⟩
      rw [Expr.spanless, Expr.spanless, hnode, hcallee, hargs]
  | _, _, _, _, .paren _ hexpr _ => hexpr.rereads

theorem IsCall.rereads : ∀ {start stop : Nat} {tokens : List Token} {node : Node} {callee : Ident}
    {args : List Expr}, IsCall start tokens node callee args stop →
    RereadsCall start node callee args stop
  | _, _, _, _, _, _, .empty _ _ _ => by
      intro tokens htokens
      simp only [Expr.words, List.map_eq_cons_iff, List.map_eq_nil_iff, look_eq_word_iff,
        look_eq_iff] at htokens
      obtain ⟨name, _, rfl, hname, opening, _, rfl, hopening, close, _, rfl, hclose, rfl⟩ := htokens
      refine ⟨_, _, _, ?_, nameAt_spanless hname.2, rfl, .empty hname.1 hopening.1 hclose.1⟩
      rfl
  | _, _, _, _, _, _, .mk _ _ hargs _ => by
      intro tokens htokens
      obtain ⟨first, rest, hlist, hargs⟩ := hargs.rereads
      rw [hlist, Expr.words] at htokens
      generalize first.words ++ Expr.moreWords rest = words at htokens hargs
      simp only [List.map_eq_append_iff, List.map_eq_cons_iff, List.map_eq_nil_iff,
        look_eq_word_iff, look_eq_iff] at htokens
      obtain ⟨name, _, rfl, hname, opening, _, rfl, hopening, inner, _, rfl, hinner, close, _, rfl,
        hclose, rfl⟩ := htokens
      obtain ⟨args, hsame, hargs⟩ := hargs hinner
      refine ⟨_, _, args, ?_, nameAt_spanless hname.2, hsame, .mk hname.1 hopening.1 hargs hclose.1⟩
      rfl

theorem IsArguments.rereads : ∀ {start stop : Nat} {tokens : List Token} {args : List Expr},
    IsArguments start tokens args stop → RereadsArguments start args stop
  | _, _, _, _, .one hexpr => by
      refine ⟨_, [], rfl, ?_⟩
      intro tokens htokens
      rw [Expr.moreWords, List.append_nil] at htokens
      obtain ⟨expr, hsame, hexpr⟩ := hexpr.rereads.1 htokens
      exact ⟨[expr], congrArg ([·]) hsame, .one hexpr⟩
  | _, _, _, _, .more hexpr _ hothers => by
      obtain ⟨first, rest, hlist, hargs⟩ := hothers.rereads
      refine ⟨_, _, rfl, ?_⟩
      intro tokens htokens
      rw [hlist, Expr.moreWords] at htokens
      generalize first.words ++ Expr.moreWords rest = words at htokens hargs
      simp only [List.map_eq_append_iff, List.map_eq_cons_iff, look_eq_iff] at htokens
      obtain ⟨front, _, rfl, hfront, comma, back, rfl, hcomma, hback⟩ := htokens
      obtain ⟨expr, hsame, hexpr⟩ := hexpr.rereads.1 hfront
      obtain ⟨others, hsame', hothers⟩ := hargs hback
      refine ⟨expr :: others, ?_, .more hexpr hcomma.1 hothers⟩
      rw [Expr.spanlessAll, Expr.spanlessAll, hsame, hsame']

end

/-! ## Statements -/

theorem IsVarDecl.rereads {start stop : Nat} {tokens : List Token} {decl : VarDecl}
    (hdecl : IsVarDecl start tokens decl stop) :
    Rereads VarDecl.spanless (decl.words ++ [(.semicolon, ";")]) (IsVarDecl start · · stop) decl := by
  cases hdecl with
  | mk htype _ _ =>
      intro tokens htokens
      simp only [VarDecl.words, List.cons_append, List.nil_append, List.map_eq_cons_iff,
        List.map_eq_nil_iff, look_eq_word_iff, look_eq_iff] at htokens
      obtain ⟨label, _, rfl, hlabel, name, _, rfl, hname, close, _, rfl, hclose, rfl⟩ := htokens
      refine ⟨_, ?_, .mk (htype.reread hlabel) hname.1 hclose.1⟩
      rw [VarDecl.spanless, VarDecl.spanless, nameAt_spanless hname.2]
      rfl

/-- Statements in braces are read again, whatever the closing brace is. -/
def RereadsBlock (start : Nat) (body : List Stmt) (stop : Nat) : Prop :=
  Rereads Stmt.spanlessAll ((.leftBrace, "\x7b") :: (Stmt.allWords body ++ [(.rightBrace, "\x7d")]))
    (fun tokens body => ∃ close, IsBlock start tokens body close stop) body

/-- A condition and what comes behind it. -/
theorem map_look_condition {keyword : Word} {words others : List Word} {tokens : List Token}
    (htokens : tokens.map look =
      keyword :: (.leftParen, "(") :: (words ++ (.rightParen, ")") :: others)) :
    ∃ sign opening inner closing rest, tokens = sign :: opening :: (inner ++ closing :: rest) ∧
      look sign = keyword ∧ opening.kind = .leftParen ∧ inner.map look = words ∧
      closing.kind = .rightParen ∧ rest.map look = others := by
  simp only [List.map_eq_append_iff, List.map_eq_cons_iff, look_eq_iff] at htokens
  obtain ⟨sign, _, rfl, hsign, opening, _, rfl, hopening, inner, _, rfl, hinner, closing, rest, rfl,
    hclosing, hrest⟩ := htokens
  exact ⟨sign, opening, inner, closing, rest, rfl, hsign, hopening.1, hinner, hclosing.1, hrest⟩

theorem split_words (opening close : Word) (words others : List Word) :
    opening :: (words ++ close :: others) = (opening :: (words ++ [close])) ++ others := by
  simp

/-- A keyword, what comes behind it and a semicolon. -/
theorem map_look_simple {keyword : Word} {words : List Word} {tokens : List Token}
    (htokens : tokens.map look = keyword :: (words ++ [(Token.Kind.semicolon, ";")])) :
    ∃ sign inner close, tokens = sign :: (inner ++ [close]) ∧ look sign = keyword ∧
      inner.map look = words ∧ close.kind = .semicolon := by
  simp only [List.map_eq_append_iff, List.map_eq_cons_iff, List.map_eq_nil_iff, look_eq_iff]
    at htokens
  obtain ⟨sign, _, rfl, hsign, inner, _, rfl, hinner, close, _, rfl, hclose, rfl⟩ := htokens
  exact ⟨sign, inner, close, rfl, hsign, hinner, hclose.1⟩

mutual

theorem IsStmt.rereads : ∀ {start stop : Nat} {tokens : List Token} {stmt : Stmt},
    IsStmt start tokens stmt stop → Rereads Stmt.spanless stmt.words (IsStmt start · · stop) stmt
  | _, _, _, _, .declare hdecl => by
      intro tokens htokens
      obtain ⟨decl, hsame, hdecl⟩ := hdecl.rereads htokens
      refine ⟨_, ?_, .declare hdecl⟩
      exact congrArg Stmt.declare hsame
  | _, _, _, _, .receive _ hplace _ => by
      intro tokens htokens
      obtain ⟨_, hplace, _⟩ := hplace.inside
      obtain ⟨sign, inner, close, rfl, hsign, hinner, hclose⟩ := map_look_simple htokens
      obtain ⟨place, hsame, hplace⟩ := hplace.rereads hinner
      refine ⟨_, ?_, .receive (look_eq_iff.1 hsign).1 (.bare hplace) hclose⟩
      rw [Stmt.spanless, Stmt.spanless, hsame]
      rfl
  | _, _, _, _, .report _ hsource _ => by
      intro tokens htokens
      obtain ⟨sign, inner, close, rfl, hsign, hinner, hclose⟩ := map_look_simple htokens
      obtain ⟨source, hsame, hsource⟩ := hsource.rereads.1 hinner
      refine ⟨_, ?_, .report (look_eq_iff.1 hsign).1 hsource hclose⟩
      rw [Stmt.spanless, Stmt.spanless, hsame]
      rfl
  | _, _, _, _, .leave _ _ => by
      intro tokens htokens
      simp only [Stmt.words, List.map_eq_cons_iff, List.map_eq_nil_iff, look_eq_iff] at htokens
      obtain ⟨sign, _, rfl, hsign, close, _, rfl, hclose, rfl⟩ := htokens
      refine ⟨_, ?_, .leave hsign.1 hclose.1⟩
      rfl
  | _, _, _, _, .return _ hvalue _ => by
      intro tokens htokens
      obtain ⟨sign, inner, close, rfl, hsign, hinner, hclose⟩ := map_look_simple htokens
      obtain ⟨value, hsame, hvalue⟩ := hvalue.rereads.1 hinner
      refine ⟨_, ?_, .return (look_eq_iff.1 hsign).1 hvalue hclose⟩
      rw [Stmt.spanless, Stmt.spanless, hsame]
      rfl
  | _, _, _, _, .increment hplace _ _ => by
      intro tokens htokens
      obtain ⟨_, hplace, _⟩ := hplace.inside
      simp only [Stmt.words, List.map_eq_append_iff, List.map_eq_cons_iff, List.map_eq_nil_iff,
        look_eq_iff] at htokens
      obtain ⟨inner, _, rfl, hinner, sign, _, rfl, hsign, close, _, rfl, hclose, rfl⟩ := htokens
      obtain ⟨place, hsame, hplace⟩ := hplace.rereads hinner
      refine ⟨_, ?_, .increment (.bare hplace) hsign.1 hclose.1⟩
      rw [Stmt.spanless, Stmt.spanless, hsame]
      rfl
  | _, _, _, _, .decrement hplace _ _ => by
      intro tokens htokens
      obtain ⟨_, hplace, _⟩ := hplace.inside
      simp only [Stmt.words, List.map_eq_append_iff, List.map_eq_cons_iff, List.map_eq_nil_iff,
        look_eq_iff] at htokens
      obtain ⟨inner, _, rfl, hinner, sign, _, rfl, hsign, close, _, rfl, hclose, rfl⟩ := htokens
      obtain ⟨place, hsame, hplace⟩ := hplace.rereads hinner
      refine ⟨_, ?_, .decrement (.bare hplace) hsign.1 hclose.1⟩
      rw [Stmt.spanless, Stmt.spanless, hsame]
      rfl
  | _, _, _, _, .assign hassign _ => by
      intro tokens htokens
      obtain ⟨_, hassign, _⟩ := hassign.inside
      rw [Stmt.words] at htokens
      generalize hwords : (Expr.assign _ _ _).words = words at htokens
      simp only [List.map_eq_append_iff, List.map_eq_cons_iff, List.map_eq_nil_iff, look_eq_iff]
        at htokens
      obtain ⟨inner, _, rfl, hinner, close, _, rfl, hclose, rfl⟩ := htokens
      obtain ⟨node, target, source, hnode, htarget, hsource, hassign⟩ :=
        hassign.rereads (hinner.trans hwords.symm)
      refine ⟨_, ?_, .assign (.bare hassign) hclose.1⟩
      rw [Stmt.spanless, Stmt.spanless, hnode, htarget, hsource]
      rfl
  | _, _, _, _, .call hcall _ => by
      intro tokens htokens
      obtain ⟨_, hcall, _⟩ := hcall.inside
      rw [Stmt.words] at htokens
      generalize hwords : (Expr.call _ _ _).words = words at htokens
      simp only [List.map_eq_append_iff, List.map_eq_cons_iff, List.map_eq_nil_iff, look_eq_iff]
        at htokens
      obtain ⟨inner, _, rfl, hinner, close, _, rfl, hclose, rfl⟩ := htokens
      obtain ⟨node, callee, args, hnode, hcallee, hargs, hcall⟩ :=
        hcall.rereads (hinner.trans hwords.symm)
      refine ⟨_, ?_, .call (.bare hcall) hclose.1⟩
      rw [Stmt.spanless, Stmt.spanless, hnode, hcallee, hargs]
      rfl
  | _, _, _, _, .if _ _ hcondition _ hbody => by
      intro tokens htokens
      obtain ⟨sign, opening, inner, closing, block, rfl, hsign, hopening, hinner, hclosing, hblock⟩ :=
        map_look_condition htokens
      obtain ⟨condition, hsame, hcondition⟩ := hcondition.rereads.1 hinner
      obtain ⟨body, hsame', close, hbody⟩ := hbody.rereads hblock
      refine ⟨_, ?_, .if (look_eq_iff.1 hsign).1 hopening hcondition hclosing hbody⟩
      rw [Stmt.spanless, Stmt.spanless, hsame, hsame']
      rfl
  | _, _, _, _, .ifElse _ _ hcondition _ hbody _ hotherwise => by
      intro tokens htokens
      obtain ⟨sign, opening, inner, closing, rest, rfl, hsign, hopening, hinner, hclosing, hrest⟩ :=
        map_look_condition htokens
      rw [split_words] at hrest
      obtain ⟨block, _, rfl, hblock, hrest⟩ := List.map_eq_append_iff.1 hrest
      obtain ⟨turn, block', rfl, hturn, hblock'⟩ := List.map_eq_cons_iff.1 hrest
      obtain ⟨condition, hsame, hcondition⟩ := hcondition.rereads.1 hinner
      obtain ⟨body, hsame', close, hbody⟩ := hbody.rereads hblock
      obtain ⟨otherwise, hsame'', close', hotherwise⟩ := hotherwise.rereads hblock'
      refine ⟨_, ?_, .ifElse (look_eq_iff.1 hsign).1 hopening hcondition hclosing hbody
        (look_eq_iff.1 hturn).1 hotherwise⟩
      rw [Stmt.spanless, Stmt.spanless, hsame, hsame', hsame'']
      rfl
  | _, _, _, _, .while _ _ hcondition _ hbody => by
      intro tokens htokens
      obtain ⟨sign, opening, inner, closing, block, rfl, hsign, hopening, hinner, hclosing, hblock⟩ :=
        map_look_condition htokens
      obtain ⟨condition, hsame, hcondition⟩ := hcondition.rereads.1 hinner
      obtain ⟨body, hsame', close, hbody⟩ := hbody.rereads hblock
      refine ⟨_, ?_, .while (look_eq_iff.1 hsign).1 hopening hcondition hclosing hbody⟩
      rw [Stmt.spanless, Stmt.spanless, hsame, hsame']
      rfl

theorem IsBlock.rereads : ∀ {start stop : Nat} {tokens : List Token} {body : List Stmt}
    {close : Token}, IsBlock start tokens body close stop → RereadsBlock start body stop
  | _, _, _, _, _, .mk _ hbody _ => by
      intro tokens htokens
      simp only [List.map_eq_append_iff, List.map_eq_cons_iff, List.map_eq_nil_iff, look_eq_iff]
        at htokens
      obtain ⟨opening, _, rfl, hopening, inner, _, rfl, hinner, close, _, rfl, hclose, rfl⟩ := htokens
      obtain ⟨body, hsame, hbody⟩ := hbody.rereads hinner
      exact ⟨body, hsame, close, .mk hopening.1 hbody hclose.1⟩

theorem IsBody.rereads : ∀ {start stop : Nat} {tokens : List Token} {body : List Stmt},
    IsBody start tokens body stop →
    Rereads Stmt.spanlessAll (Stmt.allWords body) (IsBody start · · stop) body
  | _, _, _, _, .nil => by
      intro tokens htokens
      obtain rfl := List.map_eq_nil_iff.1 htokens
      exact ⟨[], rfl, .nil⟩
  | _, _, _, _, .cons hfirst hrest => by
      intro tokens htokens
      obtain ⟨front, back, rfl, hfront, hback⟩ := List.map_eq_append_iff.1 htokens
      obtain ⟨first, hsame, hfirst⟩ := hfirst.rereads hfront
      obtain ⟨rest, hsame', hrest⟩ := hrest.rereads hback
      refine ⟨first :: rest, ?_, .cons hfirst hrest⟩
      rw [Stmt.spanlessAll, Stmt.spanlessAll, hsame, hsame']

end

/-! ## Declarations -/

theorem IsFields.rereads {start stop : Nat} {tokens : List Token} {fields : List VarDecl}
    (hfields : IsFields start tokens fields stop) :
    Rereads (List.map VarDecl.spanless) (fields.flatMap (·.words ++ [(.semicolon, ";")]))
      (IsFields start · · stop) fields := by
  induction hfields with
  | nil =>
      intro tokens htokens
      obtain rfl := List.map_eq_nil_iff.1 htokens
      exact ⟨[], rfl, .nil⟩
  | cons hfirst _ ih =>
      intro tokens htokens
      rw [List.flatMap_cons] at htokens
      obtain ⟨front, back, rfl, hfront, hback⟩ := List.map_eq_append_iff.1 htokens
      obtain ⟨first, hsame, hfirst⟩ := hfirst.rereads hfront
      obtain ⟨rest, hsame', hrest⟩ := ih hback
      refine ⟨first :: rest, ?_, .cons hfirst hrest⟩
      rw [List.map_cons, List.map_cons, hsame, hsame']

theorem IsFormal.rereads {start stop : Nat} {tokens : List Token} {param : VarDecl}
    (hparam : IsFormal start tokens param stop) :
    Rereads VarDecl.spanless param.words (IsFormal start · · stop) param := by
  cases hparam with
  | mk htype _ =>
      intro tokens htokens
      simp only [VarDecl.words, List.map_eq_cons_iff, List.map_eq_nil_iff, look_eq_word_iff]
        at htokens
      obtain ⟨label, _, rfl, hlabel, name, _, rfl, hname, rfl⟩ := htokens
      refine ⟨_, ?_, .mk (htype.reread hlabel) hname.1⟩
      rw [VarDecl.spanless, VarDecl.spanless, nameAt_spanless hname.2]
      rfl

theorem IsFormals.flatMap_words {start stop : Nat} {tokens : List Token} {params : List VarDecl}
    (hparams : IsFormals start tokens params stop) :
    (params.flatMap fun param => (.comma, ",") :: param.words) =
      (.comma, ",") :: VarDecl.paramWords params := by
  cases hparams <;> rfl

theorem IsFormals.rereads {start stop : Nat} {tokens : List Token} {params : List VarDecl}
    (hparams : IsFormals start tokens params stop) :
    Rereads (List.map VarDecl.spanless) (VarDecl.paramWords params) (IsFormals start · · stop)
      params := by
  induction hparams with
  | one hfirst =>
      intro tokens htokens
      rw [VarDecl.paramWords, List.flatMap_nil, List.append_nil] at htokens
      obtain ⟨first, hsame, hfirst⟩ := hfirst.rereads htokens
      exact ⟨[first], congrArg ([·]) hsame, .one hfirst⟩
  | more hfirst _ hrest ih =>
      intro tokens htokens
      rw [VarDecl.paramWords, hrest.flatMap_words] at htokens
      obtain ⟨front, _, rfl, hfront, hback⟩ := List.map_eq_append_iff.1 htokens
      obtain ⟨comma, back, rfl, hcomma, hback⟩ := List.map_eq_cons_iff.1 hback
      obtain ⟨first, hsame, hfirst⟩ := hfirst.rereads hfront
      obtain ⟨rest, hsame', hrest⟩ := ih hback
      refine ⟨first :: rest, ?_, .more hfirst (look_eq_iff.1 hcomma).1 hrest⟩
      rw [List.map_cons, List.map_cons, hsame, hsame']

theorem IsParams.rereads {start stop : Nat} {tokens : List Token} {params : List VarDecl}
    (hparams : IsParams start tokens params stop) :
    Rereads (List.map VarDecl.spanless)
      ((.leftParen, "(") :: (VarDecl.paramWords params ++ [(.rightParen, ")")]))
      (IsParams start · · stop) params := by
  intro tokens htokens
  simp only [List.map_eq_append_iff, List.map_eq_cons_iff, List.map_eq_nil_iff, look_eq_iff]
    at htokens
  obtain ⟨opening, _, rfl, hopening, inner, _, rfl, hinner, close, _, rfl, hclose, rfl⟩ := htokens
  cases hparams with
  | empty =>
      obtain rfl := List.map_eq_nil_iff.1 hinner
      exact ⟨[], rfl, .empty hopening.1 hclose.1⟩
  | mk _ hformals _ =>
      obtain ⟨params, hsame, hformals⟩ := hformals.rereads hinner
      exact ⟨params, hsame, .mk hopening.1 hformals hclose.1⟩

theorem IsDecl.rereads {start stop : Nat} {tokens : List Token} {decl : Decl}
    (hdecl : IsDecl start tokens decl stop) :
    Rereads Decl.spanless decl.words (IsDecl start · · stop) decl := by
  intro tokens htokens
  cases hdecl with
  | var hdecl =>
      obtain ⟨decl, hsame, hdecl⟩ := hdecl.rereads htokens
      exact ⟨.var decl, congrArg Decl.var hsame, .var hdecl⟩
  | record _ _ _ hfields _ =>
      rw [Decl.words] at htokens
      generalize hwords : List.flatMap _ _ = words at htokens
      simp only [List.map_eq_append_iff, List.map_eq_cons_iff, List.map_eq_nil_iff,
        look_eq_word_iff, look_eq_iff] at htokens
      obtain ⟨sign, _, rfl, hsign, name, _, rfl, hname, opening, _, rfl, hopening, inner, _, rfl,
        hinner, close, _, rfl, hclose, rfl⟩ := htokens
      obtain ⟨fields, hsame, hfields⟩ := hfields.rereads (hinner.trans hwords.symm)
      refine ⟨_, ?_, .record hsign.1 hname.1 hopening.1 hfields hclose.1⟩
      rw [Decl.spanless, Decl.spanless, hsame, nameAt_spanless hname.2]
      rfl
  | fn htype _ hparams hblock =>
      rw [Decl.words, split_words] at htokens
      obtain ⟨label, _, rfl, hlabel, hrest⟩ := List.map_eq_cons_iff.1 htokens
      obtain ⟨name, _, rfl, hname, hrest⟩ := List.map_eq_cons_iff.1 hrest
      obtain ⟨front, back, rfl, hfront, hback⟩ := List.map_eq_append_iff.1 hrest
      obtain ⟨params, hsame, hparams⟩ := hparams.rereads hfront
      obtain ⟨body, hsame', close, hbody⟩ := hblock.rereads hback
      obtain ⟨hname, htext⟩ := look_eq_word_iff.1 hname
      refine ⟨_, ?_, .fn (htype.reread hlabel) hname hparams hbody⟩
      rw [Decl.spanless, Decl.spanless, hsame, hsame', nameAt_spanless htext]
      rfl

theorem IsDecls.rereads {start stop : Nat} {tokens : List Token} {decls : List Decl}
    (hdecls : IsDecls start tokens decls stop) :
    Rereads (List.map Decl.spanless) (decls.flatMap (·.words)) (IsDecls start · · stop) decls := by
  induction hdecls with
  | nil =>
      intro tokens htokens
      obtain rfl := List.map_eq_nil_iff.1 htokens
      exact ⟨[], rfl, .nil⟩
  | cons hfirst _ ih =>
      intro tokens htokens
      rw [List.flatMap_cons] at htokens
      obtain ⟨front, back, rfl, hfront, hback⟩ := List.map_eq_append_iff.1 htokens
      obtain ⟨first, hsame, hfirst⟩ := hfirst.rereads hfront
      obtain ⟨rest, hsame', hrest⟩ := ih hback
      refine ⟨first :: rest, ?_, .cons hfirst hrest⟩
      rw [List.map_cons, List.map_cons, hsame, hsame']

/-- A program is derived again from the words of its canonical form. -/
theorem IsProgram.rereads {tokens body : List Token} {last : Token} {program : Program}
    (hprogram : IsProgram tokens program) (hbody : body.map look = program.words)
    (hlast : last.kind = .endOfFile) :
    ∃ program', program'.spanless = program.spanless ∧ IsProgram (body ++ [last]) program' := by
  cases hprogram with
  | mk hdecls _ _ =>
      obtain ⟨decls, hsame, hdecls⟩ := hdecls.rereads hbody
      obtain ⟨first, hfirst⟩ : ∃ first, (body ++ [last]).head? = some first := by
        cases body <;> exact ⟨_, rfl⟩
      refine ⟨_, ?_, .mk hdecls hlast hfirst⟩
      rw [Program.spanless, Program.spanless, hsame]
      rfl

end Shanty.Tree.Grammar
