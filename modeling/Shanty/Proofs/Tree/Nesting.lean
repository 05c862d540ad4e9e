/-
# Spans nest

Each node of a parsed program stands on a stretch of the tokens: its span runs from the start of the
first token of the stretch to the end of the last one. The nodes below it stand on stretches of
these tokens again, one after the other, with gaps where there are operators, brackets and
parentheses.

That a construct stands on its tokens follows from the rules of the grammar one by one. Since tokens
are in order and do not overlap, neither do the spans of siblings, and they lie within the span of
the node above them.
-/

import Shanty.Proofs.Token.Order
import Shanty.Proofs.Tree.RoundTrip
import Shanty.Tree.Outline

namespace Shanty

open Token

namespace Tree

/-! ## Stretches of tokens -/

mutual

/-- A node stands on some tokens: its span is theirs, and what is below it stands on some of them.
-/
inductive Stands : List Token → Outline → Prop
  | mk {used : List Token} {first last : Token} {kind : String} {node : Node} {detail : Detail}
      {symbol : Option Symbol} {children : List Outline} :
      used.head? = some first → used.getLast? = some last →
      node.span = first.span.through last.span → StandAll used children →
      Stands used (.mk kind node detail symbol children)

/-- Some nodes stand on stretches of some tokens that follow each other. -/
inductive StandAll : List Token → List Outline → Prop
  | nil {tokens : List Token} : StandAll tokens []
  | cons {gap used rest : List Token} {first : Outline} {others : List Outline} :
      Stands used first → StandAll rest others → StandAll (gap ++ (used ++ rest)) (first :: others)

end

namespace StandAll

variable {tokens more : List Token} {outlines others : List Outline} {outline : Outline}

/-- Tokens in front are a gap. -/
theorem after (front : List Token) (hstand : StandAll tokens outlines) :
    StandAll (front ++ tokens) outlines := by
  cases hstand with
  | nil => exact .nil
  | @cons gap used rest first others hfirst hrest =>
      rw [← List.append_assoc]
      exact .cons hfirst hrest

theorem cons_token (token : Token) (hstand : StandAll tokens outlines) :
    StandAll (token :: tokens) outlines := hstand.after [token]

theorem append : ∀ {tokens : List Token} {outlines : List Outline}, StandAll tokens outlines →
    StandAll more others → StandAll (tokens ++ more) (outlines ++ others)
  | tokens, _, .nil, hmore => hmore.after tokens
  | _, _, .cons hfirst hrest, hmore => by
      rw [List.append_assoc, List.append_assoc]
      exact .cons hfirst (hrest.append hmore)

/-- Tokens behind are a gap. -/
theorem before (back : List Token) (hstand : StandAll tokens outlines) :
    StandAll (tokens ++ back) outlines := by
  have happend := hstand.append (.nil : StandAll back [])
  rwa [List.append_nil] at happend

theorem single (hstands : Stands tokens outline) : StandAll tokens [outline] := by
  have hcons : StandAll ([] ++ (tokens ++ [])) [outline] := .cons hstands .nil
  rwa [List.append_nil] at hcons

theorem exists_stretch (hstand : StandAll tokens [outline]) :
    ∃ gap used rest, tokens = gap ++ (used ++ rest) ∧ Stands used outline := by
  cases hstand with
  | cons hfirst _ => exact ⟨_, _, _, rfl, hfirst⟩

end StandAll

section Nodes

variable {tokens : List Token} {kind : String} {node : Node} {detail : Detail}
  {children : List Outline}

/-- A node stands on all tokens of its own if its span runs from the first to the last. -/
theorem StandAll.over {first last : Token} (hfirst : tokens.head? = some first)
    (hlast : tokens.getLast? = some last) (hspan : node.span = first.span.through last.span)
    (hchildren : StandAll tokens children) :
    StandAll tokens [.plain kind node detail children] :=
  .single (.mk hfirst hlast hspan hchildren)

/-- A node that is a token. -/
theorem StandAll.leaf {token : Token} {symbol : Option Symbol} (hspan : node.span = token.span) :
    StandAll [token] [.mk kind node detail symbol []] :=
  .single (.mk rfl rfl hspan .nil)

theorem Stands.exists_ends {used : List Token} {outline : Outline} (hstands : Stands used outline) :
    ∃ first last, used.head? = some first ∧ used.getLast? = some last ∧
      outline.node.span = first.span.through last.span := by
  cases hstands with
  | mk hfirst hlast hspan _ => exact ⟨_, _, hfirst, hlast, hspan⟩

/-- A node with the span of the one node below it. -/
theorem StandAll.alike {child : Outline} (hchild : StandAll tokens [child])
    (hspan : node.span = child.node.span) : StandAll tokens [.plain kind node detail [child]] := by
  obtain ⟨gap, used, rest, rfl, hstands⟩ := hchild.exists_stretch
  obtain ⟨first, last, hfirst, hlast, hchild⟩ := hstands.exists_ends
  have hnode : StandAll used [.plain kind node detail [child]] :=
    .over hfirst hlast (hspan.trans hchild) (.single hstands)
  exact (hnode.before rest).after gap

theorem getLast?_cons_append (token : Token) (front : List Token) {back : List Token} {last : Token}
    (hlast : back.getLast? = some last) : (token :: (front ++ back)).getLast? = some last := by
  rw [List.getLast?_cons, List.getLast?_append, hlast]
  rfl

/-- A node from a sign to the end of the one node below it. -/
theorem StandAll.fromSign {child : Outline} (sign : Token) (hchild : StandAll tokens [child])
    (hspan : node.span = sign.span.through child.node.span) :
    StandAll (sign :: tokens) [.plain kind node detail [child]] := by
  obtain ⟨gap, used, rest, rfl, hstands⟩ := hchild.exists_stretch
  obtain ⟨first, last, _, hlast, hchild⟩ := hstands.exists_ends
  have hnode : StandAll (sign :: (gap ++ used)) [.plain kind node detail [child]] := by
    refine .over rfl (getLast?_cons_append sign gap hlast) ?_ ?_
    · rw [hspan, hchild]
      rfl
    · exact ((StandAll.single hstands).after gap).cons_token sign
  have hwhole := hnode.before rest
  rwa [List.cons_append, List.append_assoc] at hwhole

/-- A node from the start of the first node below it to a sign behind all of them. -/
theorem StandAll.toSign {child : Outline} {more : List Token} {others : List Outline}
    (hchild : StandAll tokens [child]) (hothers : StandAll more others) (sign : Token)
    (back : List Token) (hspan : node.span = child.node.span.through sign.span) :
    StandAll (tokens ++ (more ++ sign :: back)) [.plain kind node detail (child :: others)] := by
  obtain ⟨gap, used, rest, rfl, hstands⟩ := hchild.exists_stretch
  obtain ⟨first, last, hfirst, _, hchild⟩ := hstands.exists_ends
  have hnode : StandAll (used ++ (rest ++ (more ++ [sign])))
      [.plain kind node detail (child :: others)] := by
    have hstart : (used ++ (rest ++ (more ++ [sign]))).head? = some first := by
      rw [List.head?_append, hfirst]
      rfl
    have hstop : (used ++ (rest ++ (more ++ [sign]))).getLast? = some sign := by simp
    refine .over hstart hstop ?_ ?_
    · rw [hspan, hchild]
      rfl
    · exact (StandAll.single hstands).append ((hothers.before [sign]).after rest)
  have hwhole := (hnode.before back).after gap
  simpa using hwhole

/-- A node from the start of one node below it to the end of the other. -/
theorem StandAll.between {left right : List Token} {first second : Outline} (sign : Token)
    (hfirst : StandAll left [first]) (hsecond : StandAll right [second])
    (hspan : node.span = first.node.span.through second.node.span) :
    StandAll (left ++ sign :: right) [.plain kind node detail [first, second]] := by
  obtain ⟨gap, used, rest, rfl, hstands⟩ := hfirst.exists_stretch
  obtain ⟨gap', used', rest', rfl, hstands'⟩ := hsecond.exists_stretch
  obtain ⟨opening, _, hopening, _, hfirst⟩ := hstands.exists_ends
  obtain ⟨_, closing, _, hclosing, hsecond⟩ := hstands'.exists_ends
  have hnode : StandAll (used ++ (rest ++ sign :: (gap' ++ used')))
      [.plain kind node detail [first, second]] := by
    have hstart : (used ++ (rest ++ sign :: (gap' ++ used'))).head? = some opening := by
      rw [List.head?_append, hopening]
      rfl
    have hstop : (used ++ (rest ++ sign :: (gap' ++ used'))).getLast? = some closing := by
      rw [← List.append_assoc, List.getLast?_append, getLast?_cons_append sign gap' hclosing]
      rfl
    refine .over hstart hstop ?_ ?_
    · rw [hspan, hfirst, hsecond]
      rfl
    · exact (StandAll.single hstands).append
        ((((StandAll.single hstands').after gap').cons_token sign).after rest)
  have hwhole := (hnode.before rest').after gap
  simpa using hwhole

end Nodes

/-! ## Constructs stand on their tokens -/

@[simp]
theorem Expr.node_outline (expr : Expr) : expr.outline.node = expr.node := by
  cases expr <;> rfl

namespace Grammar

theorem Enclosed.stand {phrase : List Token → Prop} {outlines : List Outline}
    (hphrase : ∀ tokens, phrase tokens → StandAll tokens outlines) {tokens : List Token}
    (henclosed : Enclosed phrase tokens) : StandAll tokens outlines := by
  induction henclosed with
  | bare hinside => exact hphrase _ hinside
  | paren _ _ _ ih => exact (ih.before _).cons_token _

theorem stand_name (number : Nat) (token : Token) :
    StandAll [token] [(nameAt number token).outline] := .leaf rfl

theorem stand_label (number : Nat) (token : Token) (type : TypeName) :
    StandAll [token] [(TypeLabel.mk (nodeAt number token.span) type).outline] := .leaf rfl

theorem IsPlace.stand {start stop : Nat} {tokens : List Token} {expr : Expr}
    (hplace : IsPlace start tokens expr stop) : StandAll tokens [expr.outline] := by
  induction hplace with
  | name => exact stand_name _ _
  | @field middle tokens base opening selector close _ _ _ _ ih =>
      refine ih.toSign ((stand_name middle selector).cons_token opening) close [] ?_
      rw [Expr.node_outline]
      rfl

mutual

theorem IsExpr.stand : ∀ {start stop : Nat} {tokens : List Token} {expr : Expr},
    IsExpr start tokens expr stop → StandAll tokens [expr.outline]
  | _, _, _, _, .binary hbinary => hbinary.stand
  | _, _, _, _, .assign hassign => hassign.stand

theorem IsAssign.stand : ∀ {start stop : Nat} {tokens : List Token} {node : Node}
    {target source : Expr}, IsAssign start tokens node target source stop →
    StandAll tokens [(Expr.assign node target source).outline]
  | _, _, _, _, _, _, .mk hplace _ hsource => by
      refine (hplace.stand fun _ => IsPlace.stand).between _ hsource.stand ?_
      rw [Expr.node_outline, Expr.node_outline]
      rfl

theorem IsBinary.stand : ∀ {level start stop : Nat} {tokens : List Token} {expr : Expr},
    IsBinary level start tokens expr stop → StandAll tokens [expr.outline]
  | _, _, _, _, _, .unary hunary => hunary.stand
  | _, _, _, _, _, .tighter hbinary => hbinary.stand
  | _, _, _, _, _, .operator hfirst _ hsecond => by
      refine hfirst.stand.between _ hsecond.stand ?_
      rw [Expr.node_outline, Expr.node_outline]
      rfl

theorem IsUnary.stand : ∀ {start stop : Nat} {tokens : List Token} {expr : Expr},
    IsUnary start tokens expr stop → StandAll tokens [expr.outline]
  | _, _, _, _, .operator _ hoperand => by
      refine hoperand.stand.fromSign _ ?_
      rw [Expr.node_outline]
      rfl
  | _, _, _, _, .term hterm => hterm.stand

theorem IsTerm.stand : ∀ {start stop : Nat} {tokens : List Token} {expr : Expr},
    IsTerm start tokens expr stop → StandAll tokens [expr.outline]
  | _, _, _, _, .int _ | _, _, _, _, .string _ | _, _, _, _, .true _ | _, _, _, _, .false _ =>
      .leaf rfl
  | _, _, _, _, .place hplace => hplace.stand
  | _, _, _, _, .call hcall => hcall.stand
  | _, _, _, _, .paren _ hexpr _ => (hexpr.stand.before _).cons_token _

theorem IsCall.stand : ∀ {start stop : Nat} {tokens : List Token} {node : Node} {callee : Ident}
    {args : List Expr}, IsCall start tokens node callee args stop →
    StandAll tokens [(Expr.call node callee args).outline]
  | start, _, _, _, _, _, .empty _ _ _ =>
      .over rfl rfl rfl ((stand_name start _).append .nil)
  | start, _, _, _, _, _, .mk _ _ hargs _ =>
      .over rfl (getLast?_cons_append _ (_ :: _) rfl) rfl
        ((stand_name start _).append ((hargs.stand.before [_]).cons_token _))

theorem IsArguments.stand : ∀ {start stop : Nat} {tokens : List Token} {args : List Expr},
    IsArguments start tokens args stop → StandAll tokens (Expr.outlines args)
  | _, _, _, _, .one hexpr => hexpr.stand
  | _, _, _, _, .more hexpr _ hothers => hexpr.stand.append (hothers.stand.cons_token _)

end

theorem IsVarDecl.stand {start stop : Nat} {tokens : List Token} {decl : VarDecl}
    (hdecl : IsVarDecl start tokens decl stop) : StandAll tokens [decl.outline] := by
  cases hdecl with
  | @mk label name close type _ _ _ =>
      have hchildren := (stand_label start label type).append
        ((stand_name (start + 1) name).before [close])
      exact .over rfl rfl rfl hchildren

theorem IsFormal.stand {start stop : Nat} {tokens : List Token} {decl : VarDecl}
    (hdecl : IsFormal start tokens decl stop) : StandAll tokens [decl.outline] := by
  cases hdecl with
  | @mk label name type _ _ =>
      have hchildren := (stand_label start label type).append (stand_name (start + 1) name)
      exact .over rfl rfl rfl hchildren

mutual

theorem IsStmt.stand : ∀ {start stop : Nat} {tokens : List Token} {stmt : Stmt},
    IsStmt start tokens stmt stop → StandAll tokens [stmt.outline]
  | _, _, _, _, .declare hdecl => hdecl.stand
  | _, _, _, _, .receive _ hplace _ => by
      refine (StandAll.fromSign _ (hplace.stand fun _ => IsPlace.stand) ?_).before [_]
      rw [Expr.node_outline]
      rfl
  | _, _, _, _, .report _ hused _ | _, _, _, _, .return _ hused _ => by
      refine (StandAll.fromSign _ hused.stand ?_).before [_]
      rw [Expr.node_outline]
      rfl
  | _, _, _, _, .leave _ _ => .before [_] (.leaf rfl)
  | _, _, _, _, .increment hplace _ _ | _, _, _, _, .decrement hplace _ _ => by
      refine (hplace.stand fun _ => IsPlace.stand).toSign (.nil : StandAll [] []) _ [_] ?_
      rw [Expr.node_outline]
      rfl
  | _, _, _, _, .assign hassign _ => by
      refine ((hassign.stand fun _ => IsAssign.stand).alike ?_).before [_]
      rfl
  | _, _, _, _, .call hcall _ => by
      refine ((hcall.stand fun _ => IsCall.stand).alike ?_).before [_]
      rfl
  | _, _, _, _, .if _ _ hcond _ hblock | _, _, _, _, .while _ _ hcond _ hblock => by
      obtain ⟨hbody, hclose⟩ := hblock.stand
      refine .over rfl ?_ rfl ?_
      · exact getLast?_cons_append _ (_ :: _) (getLast?_cons_append _ [] hclose)
      · exact ((hcond.stand.append (hbody.cons_token _)).cons_token _).cons_token _
  | _, _, _, _, .ifElse _ _ hcond _ hblock _ hblock' => by
      obtain ⟨hbody, _⟩ := hblock.stand
      obtain ⟨hotherwise, hclose⟩ := hblock'.stand
      refine .over rfl ?_ rfl ?_
      · exact getLast?_cons_append _ (_ :: _)
          (getLast?_cons_append _ _ (getLast?_cons_append _ [] hclose))
      · have hblocks := fun turn => hbody.append (hotherwise.cons_token turn)
        exact ((hcond.stand.append ((hblocks _).cons_token _)).cons_token _).cons_token _

theorem IsBlock.stand : ∀ {start stop : Nat} {tokens : List Token} {body : List Stmt}
    {close : Token}, IsBlock start tokens body close stop →
    StandAll tokens (Stmt.outlines body) ∧ tokens.getLast? = some close
  | _, _, _, _, _, .mk _ hbody _ =>
      ⟨(hbody.stand.before [_]).cons_token _, getLast?_cons_append _ _ rfl⟩

theorem IsBody.stand : ∀ {start stop : Nat} {tokens : List Token} {body : List Stmt},
    IsBody start tokens body stop → StandAll tokens (Stmt.outlines body)
  | _, _, _, _, .nil => .nil
  | _, _, _, _, .cons hfirst hrest => hfirst.stand.append hrest.stand

end

theorem IsFields.stand {start stop : Nat} {tokens : List Token} {fields : List VarDecl}
    (hfields : IsFields start tokens fields stop) :
    StandAll tokens (fields.map (·.outline)) := by
  induction hfields with
  | nil => exact .nil
  | cons hfirst _ ih => exact hfirst.stand.append ih

theorem IsFormals.stand {start stop : Nat} {tokens : List Token} {params : List VarDecl}
    (hformals : IsFormals start tokens params stop) :
    StandAll tokens (params.map (·.outline)) := by
  induction hformals with
  | one hfirst => exact hfirst.stand
  | more hfirst _ _ ih => exact hfirst.stand.append (ih.cons_token _)

theorem IsParams.stand {start stop : Nat} {tokens : List Token} {params : List VarDecl}
    (hparams : IsParams start tokens params stop) : StandAll tokens (params.map (·.outline)) := by
  cases hparams with
  | empty => exact .nil
  | mk _ hformals _ => exact (hformals.stand.before _).cons_token _

theorem IsDecl.stand {start stop : Nat} {tokens : List Token} {decl : Decl}
    (hdecl : IsDecl start tokens decl stop) : StandAll tokens [decl.outline] := by
  cases hdecl with
  | var hdecl => exact hdecl.stand
  | @record _ sign name opening close tokens fields _ _ _ hfields _ =>
      have hinside := (hfields.stand.before [close]).cons_token opening
      have hchildren := ((stand_name start name).append hinside).cons_token sign
      exact .over rfl (getLast?_cons_append sign (name :: opening :: tokens) rfl) rfl hchildren
  | @fn middle _ label name close type tokens block params body _ _ hparams hblock =>
      obtain ⟨hbody, hclose⟩ := hblock.stand
      have hinside := (stand_name (start + 1) name).append (hparams.stand.append hbody)
      refine .over rfl ?_ rfl ((stand_label start label type).append hinside)
      exact getLast?_cons_append label (name :: tokens) hclose

theorem IsDecls.stand {start stop : Nat} {tokens : List Token} {decls : List Decl}
    (hdecls : IsDecls start tokens decls stop) : StandAll tokens (decls.map (·.outline)) := by
  induction hdecls with
  | nil => exact .nil
  | cons hfirst _ ih => exact hfirst.stand.append ih

end Grammar

/-! ## What stands on tokens in order nests -/

/-- The span of a node starts and ends where tokens do, the spans right below it lie within it, and
they follow each other. -/
structure Outline.Nests (tokens : List Token) (part : Outline) : Prop where
  starts : ∃ token ∈ tokens, token.span.start = part.node.span.start
  stops : ∃ token ∈ tokens, token.span.stop = part.node.span.stop
  ordered : part.node.span.start ≤ part.node.span.stop
  within : ∀ child ∈ part.children, child.node.span.Within part.node.span
  siblings : part.children.Pairwise fun earlier later => earlier.node.span.Precedes later.node.span

theorem Outline.Nests.mono {used tokens : List Token} {part : Outline} (hnests : part.Nests used)
    (hsubset : used ⊆ tokens) : part.Nests tokens where
  starts := hnests.starts.imp fun _ htoken => htoken.imp_left (hsubset ·)
  stops := hnests.stops.imp fun _ htoken => htoken.imp_left (hsubset ·)
  ordered := hnests.ordered
  within := hnests.within
  siblings := hnests.siblings

section Order

variable {tokens : List Token} {outlines : List Outline}

theorem Stands.exists_extent {outline : Outline} (hstands : Stands tokens outline)
    (horder : InOrder tokens) :
    ∃ first ∈ tokens, ∃ last ∈ tokens, outline.node.span = first.span.through last.span ∧
      first.span.start < last.span.stop := by
  obtain ⟨first, last, hfirst, hlast, hspan⟩ := hstands.exists_ends
  have hmem := List.mem_of_getLast? hlast
  refine ⟨first, List.mem_of_head? hfirst, last, hmem, hspan, ?_⟩
  exact (horder.start_le hfirst last hmem).trans_lt (horder.extent last hmem)

theorem StandAll.exists_extent : ∀ {tokens : List Token} {outlines : List Outline},
    StandAll tokens outlines → InOrder tokens → ∀ outline ∈ outlines,
    ∃ first ∈ tokens, ∃ last ∈ tokens, outline.node.span = first.span.through last.span ∧
      first.span.start < last.span.stop
  | _, _, .nil, _, outline, hmem => absurd hmem List.not_mem_nil
  | _, _, .cons hfirst hrest, horder, outline, hmem => by
      rcases List.mem_cons.1 hmem with rfl | hmem
      · obtain ⟨first, hfirst, last, hlast, hspan⟩ := hfirst.exists_extent horder.right.left
        exact ⟨first, by simp [hfirst], last, by simp [hlast], hspan⟩
      · obtain ⟨first, hfirst, last, hlast, hspan⟩ :=
          hrest.exists_extent horder.right.right outline hmem
        exact ⟨first, by simp [hfirst], last, by simp [hlast], hspan⟩

theorem StandAll.siblings : ∀ {tokens : List Token} {outlines : List Outline},
    StandAll tokens outlines → InOrder tokens →
    outlines.Pairwise fun earlier later => earlier.node.span.Precedes later.node.span
  | _, _, .nil, _ => .nil
  | _, _, .cons hfirst hrest, horder => by
      refine .cons (fun later hlater => ?_) (hrest.siblings horder.right.right)
      obtain ⟨first, hfirst, last, hlast, hspan, hextent⟩ := hfirst.exists_extent horder.right.left
      obtain ⟨first', hfirst', last', hlast', hspan', hextent'⟩ :=
        hrest.exists_extent horder.right.right later hlater
      have hacross := horder.right.across last hlast first' hfirst'
      rw [hspan, hspan']
      exact ⟨hacross, hextent.trans_le hacross, hacross.trans_lt hextent'⟩

mutual

theorem Stands.nests : ∀ {used : List Token} {outline : Outline}, Stands used outline →
    InOrder used → ∀ part ∈ outline.preorder, part.Nests used
  | _, _, @Stands.mk _ first last _ _ _ _ _ hfirst hlast hspan hchildren, horder, part, hpart => by
      rw [Outline.preorder, List.mem_cons] at hpart
      rcases hpart with rfl | hpart
      · have hmem := List.mem_of_getLast? hlast
        refine ⟨⟨first, List.mem_of_head? hfirst, ?_⟩, ⟨last, hmem, ?_⟩, ?_, ?_,
          hchildren.siblings horder⟩
        · rw [Outline.node, hspan]
          rfl
        · rw [Outline.node, hspan]
          rfl
        · rw [Outline.node, hspan]
          exact (horder.start_le hfirst last hmem).trans (horder.extent last hmem).le
        · intro child hchild
          obtain ⟨first', hfirst', last', hlast', hspan', _⟩ :=
            hchildren.exists_extent horder child hchild
          rw [Outline.node, hspan, hspan']
          exact ⟨horder.start_le hfirst first' hfirst', horder.le_stop hlast last' hlast'⟩
      · exact hchildren.nests horder part hpart

theorem StandAll.nests : ∀ {tokens : List Token} {outlines : List Outline},
    StandAll tokens outlines → InOrder tokens → ∀ part ∈ Outline.preorderAll outlines,
    part.Nests tokens
  | _, _, .nil, _, part, hpart => by simp [Outline.preorderAll] at hpart
  | _, _, .cons hfirst hrest, horder, part, hpart => by
      rw [Outline.preorderAll, List.mem_append] at hpart
      rcases hpart with hpart | hpart
      · exact (hfirst.nests horder.right.left part hpart).mono (by simp)
      · exact (hrest.nests horder.right.right part hpart).mono (by simp)

end

end Order

/-- The declarations of a program stand on the tokens in front of the end token, and the program
reaches from the first token to the end token. -/
theorem Grammar.IsProgram.nests {body : List Token} {last : Token} {program : Program}
    (hprogram : Grammar.IsProgram (body ++ [last]) program) (horder : InOrder body)
    (hbehind : ∀ token ∈ body, token.span.stop ≤ last.span.start)
    (hlast : last.span.start ≤ last.span.stop) :
    ∀ part ∈ program.outline.preorder, part.Nests (body ++ [last]) := by
  generalize htokens : body ++ [last] = tokens at hprogram
  cases hprogram with
  | @mk front decls first last' _ hdecls _ hfirst =>
      obtain ⟨rfl, hsame⟩ := List.append_inj' htokens rfl
      obtain rfl : last = last' := List.singleton_inj.1 hsame
      have hstand := hdecls.stand
      have hstart : ∀ token ∈ body, first.span.start ≤ token.span.start := by
        cases body with
        | nil => simp
        | cons token rest => exact horder.start_le hfirst
      have hmem : first ∈ body ++ [last] := List.mem_of_head? hfirst
      have hordered : first.span.start ≤ last.span.stop := by
        rcases List.mem_append.1 hmem with hmem | hmem
        · exact (horder.extent first hmem).le.trans ((hbehind first hmem).trans hlast)
        · rw [List.mem_singleton.1 hmem]
          exact hlast
      intro part hpart
      rw [Program.outline, Outline.plain, Outline.preorder, List.mem_cons] at hpart
      rcases hpart with rfl | hpart
      · refine ⟨⟨first, hmem, rfl⟩, ⟨last, by simp, rfl⟩, hordered, ?_, hstand.siblings horder⟩
        intro child hchild
        obtain ⟨first', hfirst', last', hlast', hspan, _⟩ :=
          hstand.exists_extent horder child hchild
        rw [hspan]
        exact ⟨hstart first' hfirst', (hbehind last' hlast').trans hlast⟩
      · exact (hstand.nests horder part hpart).mono (by simp)

/-- Spans nest. The span of each node of a text that is parsed starts where a token of the text
starts, ends where one ends, and does not end before it starts. The spans of the nodes right below a
node lie within its own, and they follow each other in the order of the source without overlapping.
-/
theorem parse_spans_nest (bytes : List UInt8) (program : Program)
    (hparse : (parse (.ofText (Text.Utf8.decode bytes))).program = some program) :
    ∀ part ∈ program.outline.preorder,
      part.Nests (TokenStream.ofText (Text.Utf8.decode bytes)).tokens := by
  obtain ⟨body, last, hcuts, _, hproper, hprogram⟩ := cuts_of_parse hparse
  obtain ⟨hbounds, hapart⟩ := hcuts.ordered
  rw [List.pairwise_append] at hapart
  have horder : InOrder body :=
    ⟨fun token hmem => (hbounds token (by simp [hmem])).2.2 (hproper token hmem).kind_ne, hapart.1⟩
  rw [TokenStream.ofText_eq_iff_cuts.2 hcuts]
  exact hprogram.nests horder (fun token hmem => hapart.2.2 token hmem last (by simp))
    (hbounds last (by simp)).2.1

/-- Parentheses around the sides of an assignment and an operand, which belong to no span, and a
field. -/
def parenthesizedBytes : List UInt8 :=
  Text.Utf8.encode ("record P \x7b int x; \x7d P p;\n" ++
    "void main() \x7b\n\t(p[x]) = -(1 + 2) * 3; // the end\n\x7d\n").toList

theorem parse_spans_nest_parenthesized :
    ∃ program, (parse (.ofText (Text.Utf8.decode parenthesizedBytes))).program = some program ∧
      ∀ part ∈ program.outline.preorder,
        part.Nests (TokenStream.ofText (Text.Utf8.decode parenthesizedBytes)).tokens := by
  have hsome : (parse (.ofText (Text.Utf8.decode parenthesizedBytes))).program.isSome = true := by
    decide +kernel
  obtain ⟨program, hparse⟩ := Option.isSome_iff_exists.1 hsome
  exact ⟨program, hparse, parse_spans_nest parenthesizedBytes program hparse⟩

end Tree

end Shanty
