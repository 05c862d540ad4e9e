/-
# The canonical form of a tree

A tree is written in one canonical form. Here the words of this form are listed, and it is shown that
the text of a tree spells them: no two words run into each other, none is taken for something else,
and no remark on any of them is called for. All this rests on names and literals being spelled as
the scanner would read them, which is so in every tree that was made from tokens of a text.
-/

import Shanty.Proofs.Token.Spelling
import Shanty.Tree.Printer
import Shanty.Proofs.Tree.Grammar

namespace Shanty

namespace Tree

open Token (Word Spells Boundary Anything maxInt)
open Token.Lexer (Lexeme startsWord continuesWord isBlank)
open Token.Spells (punctuation keyword blank spaced)

/-! ## Words -/

/-- The word for a name. -/
def Ident.word (ident : Ident) : Word := (.ident, ident.name)

/-- The word for a type. -/
def TypeName.word : TypeName → Word
  | .int => (.int, "int")
  | .bool => (.bool, "bool")
  | .string => (.string, "string")
  | .void => (.void, "void")
  | .named name => (.ident, name)

/-- The words of a declaration, without what ends it. -/
def VarDecl.words (decl : VarDecl) : List Word := [decl.label.type.word, decl.ident.word]

/-- The words of an expression when it is an operand. -/
def Expr.encloseWords (expr : Expr) (words : List Word) : List Word :=
  if expr.isCompound then (.leftParen, "(") :: (words ++ [(.rightParen, ")")]) else words

mutual

/-- The words of an expression. -/
def Expr.words : Expr → List Word
  | .int _ value => [(.intLiteral, toString value)]
  | .string _ text => [(.stringLiteral, text)]
  | .bool _ value => [if value then (.true, "true") else (.false, "false")]
  | .name ident => [ident.word]
  | .field _ base selector =>
    base.encloseWords base.words ++ [(.leftBracket, "["), selector.word, (.rightBracket, "]")]
  | .unary _ op operand => (op.kind, op.symbol) :: operand.encloseWords operand.words
  | .binary _ op left right =>
    left.encloseWords left.words ++ (op.kind, op.symbol) :: right.encloseWords right.words
  | .assign _ target source =>
    target.encloseWords target.words ++ (.assign, "=") :: source.encloseWords source.words
  | .call _ callee [] => [callee.word, (.leftParen, "("), (.rightParen, ")")]
  | .call _ callee (first :: rest) =>
    callee.word :: (.leftParen, "(") ::
      (first.words ++ Expr.moreWords rest ++ [(.rightParen, ")")])

/-- The words of the arguments behind the first one. -/
def Expr.moreWords : List Expr → List Word
  | [] => []
  | first :: rest => (.comma, ",") :: (first.words ++ Expr.moreWords rest)

end

mutual

/-- The words of a statement. -/
def Stmt.words : Stmt → List Word
  | .declare decl => decl.words ++ [(.semicolon, ";")]
  | .assign _ inner target source =>
    (Expr.assign inner target source).words ++ [(.semicolon, ";")]
  | .increment _ place => place.words ++ [(.increment, "++"), (.semicolon, ";")]
  | .decrement _ place => place.words ++ [(.decrement, "--"), (.semicolon, ";")]
  | .receive _ place => (.receive, "receive") :: (place.words ++ [(.semicolon, ";")])
  | .report _ source => (.report, "report") :: (source.words ++ [(.semicolon, ";")])
  | .return _ none => [(.return, "return"), (.semicolon, ";")]
  | .return _ (some value) => (.return, "return") :: (value.words ++ [(.semicolon, ";")])
  | .call _ inner callee args => (Expr.call inner callee args).words ++ [(.semicolon, ";")]
  | .if _ condition body =>
    (.if, "if") :: (.leftParen, "(") :: (condition.words ++ (.rightParen, ")") ::
      (.leftBrace, "\x7b") :: (Stmt.allWords body ++ [(.rightBrace, "\x7d")]))
  | .ifElse _ condition body otherwise =>
    (.if, "if") :: (.leftParen, "(") :: (condition.words ++ (.rightParen, ")") ::
      (.leftBrace, "\x7b") :: (Stmt.allWords body ++ (.rightBrace, "\x7d") :: (.else, "else") ::
        (.leftBrace, "\x7b") :: (Stmt.allWords otherwise ++ [(.rightBrace, "\x7d")])))
  | .while _ condition body =>
    (.while, "while") :: (.leftParen, "(") :: (condition.words ++ (.rightParen, ")") ::
      (.leftBrace, "\x7b") :: (Stmt.allWords body ++ [(.rightBrace, "\x7d")]))

/-- The words of some statements. -/
def Stmt.allWords : List Stmt → List Word
  | [] => []
  | first :: rest => first.words ++ Stmt.allWords rest

end

/-- The words of the parameters of a function. -/
def VarDecl.paramWords : List VarDecl → List Word
  | [] => []
  | first :: rest => first.words ++ rest.flatMap fun param => (.comma, ",") :: param.words

/-- The words of a declaration at the top of a program. -/
def Decl.words : Decl → List Word
  | .var decl => decl.words ++ [(.semicolon, ";")]
  | .record decl =>
    (.record, "record") :: decl.ident.word :: (.leftBrace, "\x7b") ::
      (decl.fields.flatMap (·.words ++ [(.semicolon, ";")]) ++ [(.rightBrace, "\x7d")])
  | .fn decl =>
    decl.result.type.word :: decl.ident.word :: (.leftParen, "(") ::
      (VarDecl.paramWords decl.formals ++ (.rightParen, ")") :: (.leftBrace, "\x7b") ::
        (Stmt.allWords decl.body ++ [(.rightBrace, "\x7d")]))

/-- The words of a program. -/
def Program.words (program : Program) : List Word := program.decls.flatMap (·.words)

/-! ## Trees that can be written -/

/-- A name that is written as one, and that has not been resolved. -/
def Ident.Spelled (ident : Ident) : Prop :=
  ident.symbol = none ∧ Lexeme .ident ident.name.toList

/-- The name of a record is written as a name. -/
def TypeName.Spelled : TypeName → Prop
  | .named name => Lexeme .ident name.toList
  | _ => True

def VarDecl.Spelled (decl : VarDecl) : Prop := decl.label.type.Spelled ∧ decl.ident.Spelled

mutual

/-- The names and the literals in an expression can be written. -/
def Expr.Spelled : Expr → Prop
  | .int _ value => value ≤ maxInt
  | .string _ text => Lexeme .stringLiteral text.toList
  | .bool _ _ => True
  | .name ident => ident.Spelled
  | .field _ base selector => base.Spelled ∧ selector.Spelled
  | .unary _ _ operand => operand.Spelled
  | .binary _ _ left right => left.Spelled ∧ right.Spelled
  | .assign _ target source => target.Spelled ∧ source.Spelled
  | .call _ callee args => callee.Spelled ∧ Expr.AllSpelled args

/-- The names and the literals in some expressions can be written. -/
def Expr.AllSpelled : List Expr → Prop
  | [] => True
  | first :: rest => first.Spelled ∧ Expr.AllSpelled rest

end

mutual

/-- The names and the literals in a statement can be written. -/
def Stmt.Spelled : Stmt → Prop
  | .declare decl => decl.Spelled
  | .assign _ _ target source => target.Spelled ∧ source.Spelled
  | .increment _ place | .decrement _ place | .receive _ place => place.Spelled
  | .report _ source => source.Spelled
  | .return _ none => True
  | .return _ (some value) => value.Spelled
  | .call _ _ callee args => callee.Spelled ∧ Expr.AllSpelled args
  | .if _ condition body | .while _ condition body => condition.Spelled ∧ Stmt.AllSpelled body
  | .ifElse _ condition body otherwise =>
    condition.Spelled ∧ Stmt.AllSpelled body ∧ Stmt.AllSpelled otherwise

/-- The names and the literals in some statements can be written. -/
def Stmt.AllSpelled : List Stmt → Prop
  | [] => True
  | first :: rest => first.Spelled ∧ Stmt.AllSpelled rest

end

/-- The names and the literals in a declaration can be written. -/
def Decl.Spelled : Decl → Prop
  | .var decl => decl.Spelled
  | .record decl => decl.ident.Spelled ∧ ∀ field ∈ decl.fields, field.Spelled
  | .fn decl => decl.result.type.Spelled ∧ decl.ident.Spelled ∧
      (∀ param ∈ decl.formals, param.Spelled) ∧ Stmt.AllSpelled decl.body

/-! ## Expressions -/

theorem Ident.render_eq {ident : Ident} (hspelled : ident.Spelled) : ident.render = ident.name := by
  rw [Ident.render, hspelled.1]

theorem Ident.spells {ident : Ident} (hspelled : ident.Spelled) :
    Spells Boundary ident.render.toList [ident.word] := by
  rw [Ident.render_eq hspelled]
  exact .ident hspelled.2

theorem TypeName.spells {type : TypeName} (hspelled : type.Spelled) :
    Spells Boundary type.render.toList [type.word] := by
  cases type with
  | int => exact keyword ['i', 'n', 't'] .int rfl
  | bool => exact keyword ['b', 'o', 'o', 'l'] .bool rfl
  | string => exact keyword ['s', 't', 'r', 'i', 'n', 'g'] .string rfl
  | void => exact keyword ['v', 'o', 'i', 'd'] .void rfl
  | named name => exact .ident hspelled

theorem VarDecl.spells {decl : VarDecl} (hspelled : decl.Spelled) :
    Spells Boundary decl.render.toList decl.words := by
  rw [VarDecl.render, String.toList_append, String.toList_append, List.append_assoc]
  exact (TypeName.spells hspelled.1).join ((blank ' ' rfl).seq (Ident.spells hspelled.2)) rfl
    (by decide)

/-- An operand starts with a parenthesis, a quote, a letter or a digit. -/
def StartsOperand (text : List Char) : Prop :=
  ∃ c more, text = c :: more ∧ (c = '(' ∨ c = '"' ∨ continuesWord c = true)

/-- A sign in front of an operand stays a symbol of its own. -/
theorem ofSymbol?_operand {c d : Char} (hd : d = '(' ∨ d = '"' ∨ continuesWord d = true) :
    Token.Kind.ofSymbol? [c, d] = none := by
  have hall : ∀ entry ∈ Token.Kind.symbols, entry.1.length = 2 → entry.1.getLast?.all fun d =>
      d ≠ '(' && d ≠ '"' && !continuesWord d := by
    decide
  cases hsymbol : Token.Kind.ofSymbol? [c, d] with
  | none => rfl
  | some kind =>
      have hother : (d ≠ '(' ∧ d ≠ '"') ∧ continuesWord d = false := by
        simpa using hall _ (Token.Lexer.mem_of_lookup hsymbol) rfl
      obtain ⟨⟨hparen, hquote⟩, hword⟩ := hother
      rw [hword] at hd
      rcases hd with hd | hd | hd
      · exact absurd hd hparen
      · exact absurd hd hquote
      · cases hd

theorem startsOperand_append {text more : List Char} (hstarts : StartsOperand text) :
    StartsOperand (text ++ more) := by
  obtain ⟨c, rest, rfl, hc⟩ := hstarts
  exact ⟨c, rest ++ more, rfl, hc⟩

theorem Expr.startsOperand_of_isCompound {expr : Expr} (hcompound : expr.isCompound = true)
    (text : String) : StartsOperand (expr.enclose text).toList := by
  rw [Expr.enclose, if_pos hcompound, String.toList_append, String.toList_append]
  exact ⟨'(', text.toList ++ [')'], rfl, .inl rfl⟩

theorem startsOperand_ident {ident : Ident} (hspelled : ident.Spelled) :
    StartsOperand ident.render.toList := by
  obtain ⟨c, more, htext, hstarts, _, _⟩ := hspelled.2.parts.1 rfl
  rw [Ident.render_eq hspelled]
  exact ⟨c, more, htext, .inr (.inr (by rw [continuesWord, hstarts, Bool.true_or]))⟩

theorem Expr.startsOperand : ∀ {expr : Expr}, expr.Spelled →
    StartsOperand (expr.enclose expr.render).toList
  | .int _ value, _ => by
      have hdigits : (toString value).toList = Nat.toDigits 10 value := Nat.toList_repr
      cases htext : (toString value).toList with
      | nil => exact absurd (hdigits.symm.trans htext) Nat.toDigits_ne_nil
      | cons c more =>
          have hmem : c ∈ Nat.toDigits 10 value := by
            rw [← hdigits, htext]
            exact .head _
          have hdigit := Text.isDigit_of_mem_toDigits value hmem
          exact ⟨c, more, htext, .inr (.inr (by rw [continuesWord, hdigit, Bool.or_true]))⟩
  | .string _ text, hspelled => by
      obtain ⟨body, _, htext⟩ := Lexeme.parts hspelled |>.2.2 rfl
      exact ⟨_, _, htext, .inr (.inl rfl)⟩
  | .bool _ value, _ => by
      rw [Expr.enclose, if_neg (by simp [Expr.isCompound]), Expr.render]
      cases value with
      | true => exact ⟨'t', ['r', 'u', 'e'], rfl, .inr (.inr (by decide))⟩
      | false => exact ⟨'f', ['a', 'l', 's', 'e'], rfl, .inr (.inr (by decide))⟩
  | .name _, hspelled => startsOperand_ident hspelled
  | .field _ base selector, hspelled => by
      change StartsOperand (base.enclose base.render ++ "[" ++ selector.render ++ "]").toList
      simp only [String.toList_append]
      exact startsOperand_append (startsOperand_append (startsOperand_append
        (Expr.startsOperand hspelled.1)))
  | .unary _ _ _, _ | .binary _ _ _ _, _ | .assign _ _ _, _ =>
    Expr.startsOperand_of_isCompound rfl _
  | .call _ callee args, hspelled => by
      change StartsOperand
        (callee.render ++ "(" ++ String.intercalate ", " (Expr.renderAll args) ++ ")").toList
      simp only [String.toList_append]
      exact startsOperand_append (startsOperand_append (startsOperand_append
        (startsOperand_ident hspelled.1)))

/-- An operand in parentheses spells its words in parentheses. -/
theorem Expr.spells_enclose {expr : Expr} (hspells : Spells Boundary expr.render.toList expr.words) :
    Spells Boundary (expr.enclose expr.render).toList (expr.encloseWords expr.words) := by
  rw [Expr.enclose, Expr.encloseWords]
  split
  · rw [String.toList_append, String.toList_append, List.append_assoc]
    exact (punctuation '(' .leftParen rfl (by decide)).seq
      (hspells.join (punctuation ')' .rightParen rfl (by decide)).free rfl (by decide))
  · exact hspells

/-- An operator between operands stands between blanks. -/
theorem BinaryOp.spells (op : BinaryOp) :
    Spells Anything (' ' :: (op.symbol.toList ++ [' '])) [(op.kind, op.symbol)] := by
  have hblank : isBlank ' ' = true := rfl
  cases op with
  | plus => exact spaced '+' [] .plus rfl rfl
  | minus => exact spaced '-' [] .minus rfl rfl
  | times => exact spaced '*' [] .star rfl rfl
  | divide =>
      refine (blank ' ' hblank).seq (Token.Spells.slash.append (blank ' ' hblank) ?_)
      rintro _ _ _ ⟨⟩
      decide
  | and => exact spaced '&' ['&'] .and rfl rfl
  | or => exact spaced '|' ['|'] .or rfl rfl
  | equal => exact spaced '=' ['='] .equal rfl rfl
  | notEqual => exact spaced '!' ['='] .notEqual rfl rfl
  | less => exact spaced '<' [] .less rfl rfl
  | lessEqual => exact spaced '<' ['='] .lessEqual rfl rfl
  | greater => exact spaced '>' [] .greater rfl rfl
  | greaterEqual => exact spaced '>' ['='] .greaterEqual rfl rfl

/-- An operator in front of an operand does not run into it. -/
theorem UnaryOp.spells (op : UnaryOp) :
    Spells StartsOperand op.symbol.toList [(op.kind, op.symbol)] := by
  have hfits : ∀ c rest, StartsOperand rest → ∀ d ∈ rest.head?, Token.Kind.ofSymbol? [c, d] = none := by
    rintro c _ ⟨d, more, rfl, hd⟩ _ ⟨⟩
    exact ofSymbol?_operand hd
  cases op with
  | negate => exact Token.Spells.symbol rfl (hfits '-')
  | not => exact Token.Spells.symbol rfl (hfits '!')

/-- A comma and a blank. -/
theorem spells_comma : Spells Anything [',', ' '] [(.comma, ",")] :=
  (punctuation ',' .comma rfl (by decide)).seq (blank ' ' rfl)

mutual

/-- The text of an expression spells its words. -/
theorem Expr.spells : ∀ {expr : Expr}, expr.Spelled →
    Spells Boundary expr.render.toList expr.words
  | .int _ _, hspelled => .number hspelled
  | .string _ _, hspelled => (Token.Spells.string hspelled).free
  | .bool _ true, _ => by
      rw [Expr.render, Expr.words]
      exact keyword ['t', 'r', 'u', 'e'] .true rfl
  | .bool _ false, _ => by
      rw [Expr.render, Expr.words]
      exact keyword ['f', 'a', 'l', 's', 'e'] .false rfl
  | .name _, hspelled => Ident.spells hspelled
  | .field _ base selector, hspelled => by
      rw [Expr.render, Expr.words]
      simp only [String.toList_append, List.append_assoc]
      have hselector := (Ident.spells hspelled.2).join (punctuation ']' .rightBracket rfl (by decide))
        rfl (by decide)
      exact (Expr.spells_enclose (Expr.spells hspelled.1)).join
        ((punctuation '[' .leftBracket rfl (by decide)).seq hselector).free rfl (by decide)
  | .unary _ op operand, hspelled => by
      rw [Expr.render, Expr.words, String.toList_append]
      exact (UnaryOp.spells op).append (Expr.spells_enclose (Expr.spells hspelled))
        fun _ _ => startsOperand_append (Expr.startsOperand hspelled)
  | .binary node op left right, hspelled => by
      have htext : (Expr.binary node op left right).render.toList =
          (left.enclose left.render).toList ++ ((' ' :: (op.symbol.toList ++ [' '])) ++
            (right.enclose right.render).toList) := by
        rw [Expr.render]
        simp [String.toList_append]
      rw [htext, Expr.words]
      exact (Expr.spells_enclose (Expr.spells hspelled.1)).join
        (op.spells.seq (Expr.spells_enclose (Expr.spells hspelled.2))) rfl (by decide)
  | .assign _ target source, hspelled => by
      rw [Expr.render, Expr.words]
      simp only [String.toList_append, List.append_assoc]
      exact (Expr.spells_enclose (Expr.spells hspelled.1)).join
        ((spaced '=' [] .assign rfl rfl).seq (Expr.spells_enclose (Expr.spells hspelled.2))) rfl
        (by decide)
  | .call _ callee [], hspelled => by
      rw [Expr.render, Expr.words]
      simp only [String.toList_append, List.append_assoc]
      exact (Ident.spells hspelled.1).join ((punctuation '(' .leftParen rfl (by decide)).seq
        (punctuation ')' .rightParen rfl (by decide)).free) rfl (by decide)
  | .call _ callee (first :: rest), hspelled => by
      rw [Expr.render, Expr.words, Expr.renderAll]
      simp only [String.toList_append, List.append_assoc]
      have hargs := Expr.spells_intercalate (Expr.spells hspelled.2.1) hspelled.2.2
      have hargs := hargs.join (punctuation ')' .rightParen rfl (by decide)) rfl (by decide)
      rw [List.append_assoc] at hargs
      exact (Ident.spells hspelled.1).join
        ((punctuation '(' .leftParen rfl (by decide)).seq hargs).free rfl (by decide)

/-- Expressions with commas between them. -/
theorem Expr.spells_intercalate {text : String} {words : List Word} :
    ∀ {rest : List Expr}, Spells Boundary text.toList words → Expr.AllSpelled rest →
      Spells Boundary (String.intercalate ", " (text :: Expr.renderAll rest)).toList
        (words ++ Expr.moreWords rest)
  | [], htext, _ => by
      rw [Expr.renderAll, Expr.moreWords, String.intercalate_singleton, List.append_nil]
      exact htext
  | first :: rest, htext, hrest => by
      rw [Expr.renderAll, Expr.moreWords, String.intercalate_cons_cons]
      simp only [String.toList_append, List.append_assoc]
      have hrest := Expr.spells_intercalate (Expr.spells hrest.1) hrest.2
      exact htext.join (spells_comma.seq hrest) rfl (by decide)

end

/-! ## Statements -/

theorem spells_indent (depth : Nat) : Spells Anything (indent depth).toList [] := by
  induction depth with
  | zero => exact .nil
  | succ depth ih =>
      have htext : (indent (depth + 1)).toList = (indent depth).toList ++ ['\t'] :=
        String.toList_push '\t'
      rw [htext]
      exact ih.seq (blank '\t' rfl)

/-- The end of a line that is not the start of a block. -/
theorem spells_stop : Spells Anything [';', '\n'] [(.semicolon, ";")] :=
  (punctuation ';' .semicolon rfl (by decide)).seq (blank '\n' rfl)

/-- A keyword in front of an expression. -/
theorem spells_lead (text : List Char) (kind : Token.Kind)
    (hkind : Token.Kind.keywords.lookup text = some kind) :
    Spells Anything (text ++ [' ']) [(kind, String.ofList text)] :=
  (keyword text kind hkind).join (blank ' ' rfl) rfl (by decide)

/-- The start of a block. -/
theorem spells_open : Spells Anything ['\x7b', '\n'] [(.leftBrace, "\x7b")] :=
  (punctuation '\x7b' .leftBrace rfl (by decide)).seq (blank '\n' rfl)

/-- The end of a block. -/
theorem spells_close : Spells Anything ['\x7d', '\n'] [(.rightBrace, "\x7d")] :=
  (punctuation '\x7d' .rightBrace rfl (by decide)).seq (blank '\n' rfl)

/-- A sign behind a place. -/
theorem spells_step {kind : Token.Kind} (c : Char) (hsymbol : Token.Kind.ofSymbol? [c, c] = some kind) :
    Spells Anything [c, c, ';', '\n'] [(kind, String.ofList [c, c]), (.semicolon, ";")] := by
  have hsign : Spells Anything [c, c] [(kind, String.ofList [c, c])] := by
    refine Token.Spells.symbol hsymbol ?_
    intro _ _ d _
    cases hlonger : Token.Kind.ofSymbol? [c, c, d] with
    | none => exact hlonger
    | some kind' => rcases Token.Lexer.length_of_symbol hlonger with hlength | hlength <;> cases hlength
  exact hsign.seq spells_stop

/-- A condition and what comes behind it. -/
theorem spells_condition {condition : Expr} {text : List Char} {words : List Word}
    (hcondition : condition.Spelled) (htext : Spells Anything text words) :
    Spells Anything (['('] ++ (condition.render.toList ++ ([')', '\x7b', '\n'] ++ text)))
      ((.leftParen, "(") :: (condition.words ++ (.rightParen, ")") :: (.leftBrace, "\x7b") :: words)) := by
  have hclosing := (punctuation ')' .rightParen rfl (by decide)).seq (spells_open.seq htext)
  exact (punctuation '(' .leftParen rfl (by decide)).seq
    ((Expr.spells hcondition).join hclosing rfl (by decide))

/-- A line for a declaration. -/
theorem VarDecl.spells_line {decl : VarDecl} (hspelled : decl.Spelled) (depth : Nat) :
    Spells Anything (decl.renderLine depth).toList (decl.words ++ [(.semicolon, ";")]) := by
  rw [VarDecl.renderLine]
  simp only [String.toList_append, List.append_assoc]
  exact (spells_indent depth).seq ((VarDecl.spells hspelled).join spells_stop rfl (by decide))

mutual

/-- The text of a statement spells its words. -/
theorem Stmt.spells (depth : Nat) : ∀ {stmt : Stmt}, stmt.Spelled →
    Spells Anything (stmt.render depth).toList stmt.words
  | .declare _, hspelled => VarDecl.spells_line hspelled depth
  | .assign _ inner target source, hspelled => by
      have hexpr : (Expr.assign inner target source).Spelled := hspelled
      rw [Stmt.render, Stmt.words]
      simp only [String.toList_append, List.append_assoc]
      exact (spells_indent depth).seq ((Expr.spells hexpr).join spells_stop rfl (by decide))
  | .increment _ place, hspelled => by
      rw [Stmt.render, Stmt.words]
      simp only [String.toList_append, List.append_assoc]
      exact (spells_indent depth).seq ((Expr.spells hspelled).join (spells_step '+' rfl) rfl (by decide))
  | .decrement _ place, hspelled => by
      rw [Stmt.render, Stmt.words]
      simp only [String.toList_append, List.append_assoc]
      exact (spells_indent depth).seq ((Expr.spells hspelled).join (spells_step '-' rfl) rfl (by decide))
  | .receive _ place, hspelled => by
      rw [Stmt.render, Stmt.words]
      simp only [String.toList_append, List.append_assoc]
      exact (spells_indent depth).seq
        ((spells_lead ['r', 'e', 'c', 'e', 'i', 'v', 'e'] .receive rfl).seq
          ((Expr.spells hspelled).join spells_stop rfl (by decide)))
  | .report _ source, hspelled => by
      rw [Stmt.render, Stmt.words]
      simp only [String.toList_append, List.append_assoc]
      exact (spells_indent depth).seq
        ((spells_lead ['r', 'e', 'p', 'o', 'r', 't'] .report rfl).seq
          ((Expr.spells hspelled).join spells_stop rfl (by decide)))
  | .return _ none, _ => by
      rw [Stmt.render, Stmt.words, String.toList_append]
      exact (spells_indent depth).seq
        ((keyword ['r', 'e', 't', 'u', 'r', 'n'] .return rfl).join spells_stop
          rfl (by decide))
  | .return _ (some value), hspelled => by
      rw [Stmt.render, Stmt.words]
      simp only [String.toList_append, List.append_assoc]
      exact (spells_indent depth).seq
        ((spells_lead ['r', 'e', 't', 'u', 'r', 'n'] .return rfl).seq
          ((Expr.spells hspelled).join spells_stop rfl (by decide)))
  | .call _ inner callee args, hspelled => by
      have hexpr : (Expr.call inner callee args).Spelled := hspelled
      rw [Stmt.render, Stmt.words]
      simp only [String.toList_append, List.append_assoc]
      exact (spells_indent depth).seq ((Expr.spells hexpr).join spells_stop rfl (by decide))
  | .if _ condition body, hspelled => by
      rw [Stmt.render, Stmt.words]
      simp only [String.toList_append, List.append_assoc]
      have hbody := (Stmt.spells_all (depth + 1) hspelled.2).seq
        ((spells_indent depth).seq spells_close)
      exact (spells_indent depth).seq ((spells_lead ['i', 'f'] .if rfl).seq
        (spells_condition hspelled.1 hbody))
  | .ifElse _ condition body otherwise, hspelled => by
      rw [Stmt.render, Stmt.words]
      simp only [String.toList_append, List.append_assoc]
      have hotherwise := (Stmt.spells_all (depth + 1) hspelled.2.2).seq
        ((spells_indent depth).seq spells_close)
      have hturn := (punctuation '\x7d' .rightBrace rfl (by decide)).seq ((blank ' ' rfl).seq
        ((spells_lead ['e', 'l', 's', 'e'] .else rfl).seq
          (spells_open.seq hotherwise)))
      have hbody := (Stmt.spells_all (depth + 1) hspelled.2.1).seq
        ((spells_indent depth).seq hturn)
      exact (spells_indent depth).seq ((spells_lead ['i', 'f'] .if rfl).seq
        (spells_condition hspelled.1 hbody))
  | .while _ condition body, hspelled => by
      rw [Stmt.render, Stmt.words]
      simp only [String.toList_append, List.append_assoc]
      have hbody := (Stmt.spells_all (depth + 1) hspelled.2).seq
        ((spells_indent depth).seq spells_close)
      exact (spells_indent depth).seq
        ((spells_lead ['w', 'h', 'i', 'l', 'e'] .while rfl).seq
          (spells_condition hspelled.1 hbody))

theorem Stmt.spells_all (depth : Nat) : ∀ {body : List Stmt}, Stmt.AllSpelled body →
    Spells Anything (Stmt.renderAll depth body).toList (Stmt.allWords body)
  | [], _ => .nil
  | first :: rest, hspelled => by
      rw [Stmt.renderAll, Stmt.allWords, String.toList_append]
      exact (Stmt.spells depth hspelled.1).seq (Stmt.spells_all depth hspelled.2)

end

/-! ## Declarations -/

/-- Texts one after the other. -/
theorem spells_join {α : Type} {render : α → String} {words : α → List Word} {items : List α}
    (hitems : ∀ item ∈ items, Spells Anything (render item).toList (words item)) :
    Spells Anything (String.join (items.map render)).toList (items.flatMap words) := by
  induction items with
  | nil => exact .nil
  | cons first rest ih =>
      rw [List.map_cons, String.join_cons, String.toList_append, List.flatMap_cons]
      exact (hitems first (.head _)).seq (ih fun item hmem => hitems item (.tail _ hmem))

theorem VarDecl.spells_params {params : List VarDecl} (hparams : ∀ param ∈ params, param.Spelled) :
    Spells Boundary (String.intercalate ", " (params.map (·.render))).toList
      (VarDecl.paramWords params) := by
  induction params with
  | nil => exact .nil
  | cons first rest ih =>
      have hfirst := VarDecl.spells (hparams first (.head _))
      have hrest := ih fun param hmem => hparams param (.tail _ hmem)
      cases rest with
      | nil =>
          rw [List.map_cons, List.map_nil, String.intercalate_singleton, VarDecl.paramWords,
            List.flatMap_nil, List.append_nil]
          exact hfirst
      | cons second rest =>
          rw [List.map_cons, List.map_cons, String.intercalate_cons_cons]
          simp only [String.toList_append, List.append_assoc]
          exact hfirst.join (spells_comma.seq hrest) rfl (by decide)

/-- The text of a declaration spells its words. -/
theorem Decl.spells {decl : Decl} (hspelled : decl.Spelled) :
    Spells Anything decl.render.toList decl.words := by
  cases decl with
  | var decl => exact VarDecl.spells_line hspelled 0
  | record decl =>
      rw [Decl.render, Decl.words]
      simp only [String.toList_append, List.append_assoc]
      have hfields := spells_join fun field hmem => VarDecl.spells_line (hspelled.2 field hmem) 1
      exact (spells_lead ['r', 'e', 'c', 'o', 'r', 'd'] .record rfl).seq
        ((Ident.spells hspelled.1).join (spells_open.seq (hfields.seq spells_close)) rfl (by decide))
  | fn decl =>
      obtain ⟨hresult, hident, hformals, hbody⟩ := hspelled
      rw [Decl.render, Decl.words]
      simp only [String.toList_append, List.append_assoc]
      have hblock := (punctuation ')' .rightParen rfl (by decide)).seq
        (spells_open.seq ((Stmt.spells_all 1 hbody).seq spells_close))
      have hparams := (VarDecl.spells_params hformals).join hblock rfl (by decide)
      have hhead := (Ident.spells hident).join
        ((punctuation '(' .leftParen rfl (by decide)).seq hparams) rfl (by decide)
      exact (TypeName.spells hresult).join ((blank ' ' rfl).seq hhead) rfl (by decide)

/-- The text of a program spells its words. -/
theorem Program.spells {program : Program} (hspelled : ∀ decl ∈ program.decls, decl.Spelled) :
    Spells Anything program.render.toList program.words :=
  spells_join fun decl hmem => Decl.spells (hspelled decl hmem)

end Tree

end Shanty
