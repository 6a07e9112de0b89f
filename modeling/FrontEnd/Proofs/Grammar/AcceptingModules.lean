/-
This file shows that the rules of statements, declarations and modules take what the grammar derives
from them.
-/

import FrontEnd.Proofs.Grammar.AcceptingExpressions
import FrontEnd.Proofs.Parser.ReadingModules

namespace FrontEnd

open Grammar (Derives Nonterminal)

namespace Parser

variable {σ ρ α : Type} [Observer σ] [Receiver ρ] {inBlock : Bool} {last tokens rest : List Token}

/-- A type is taken when a colon is ahead. -/
theorem accepts_typeName (ends : EndsStatement last)
    (ahead : Ahead inBlock last (.bound false) tokens) :
    Accepts (typeName : Parser σ ρ (Option Identifier)) tokens
      (Ahead inBlock last (.bound true)) := by
  by_cases typed : kindAhead tokens = .symbol .colon
  · obtain ⟨colon, others, rfl⟩ := exists_cons_of_kindAhead typed (by simp)
    obtain ⟨name, after, rfl, nameKind, binds⟩ := ahead.annotated_inv ends typed
    exact (reads_optional_some (by simp) typed (reads_identifier nameKind)).accepts
      ⟨[colon, name], rfl⟩ binds
  · exact (reads_optional_none typed).accepts (List.suffix_refl tokens) (ahead.typed typed)

/-- A value is taken when an equals sign is ahead. -/
theorem accepts_assigned (ends : EndsStatement last) (fit : Fit tokens)
    (ahead : Ahead inBlock last (.bound true) tokens) :
    Accepts (assigned : Parser σ ρ (Option Expression)) tokens (Ahead inBlock last .next) := by
  by_cases valued : kindAhead tokens = .operator .equals
  · obtain ⟨equals, others, rfl⟩ := exists_cons_of_kindAhead valued (by simp)
    have suffix := List.suffix_cons equals others
    have opens := ahead.assigned_inv ends valued
    apply (reads_eat (by simp) valued).bindAccepts suffix
    apply (takes_expression ends (fit.suffix suffix) opens).accepts.bind
    exact fun _ _ _ follows => accepts_pure follows
  · exact (reads_optional_none valued).accepts (List.suffix_refl tokens)
      (ahead.next_of_bound valued)

/-- A binding is taken before what is done with it. -/
theorem takes_binding {use : Identifier → Option Identifier → Option Expression → Parser σ ρ α}
    {leaves : List Token → Prop} {name : Token} (ends : EndsStatement last)
    (kind : name.kind = .identifier) (fit : Fit (name :: rest))
    (binds : Ahead inBlock last (.bound false) rest)
    (accepts : ∀ name type value after, Ahead inBlock last .next after →
      Accepts (use name type value) after leaves) :
    Takes (do
      let name ← identifier
      let type ← typeName
      let value ← assigned
      use name type value) (name :: rest) leaves := by
  have restFit := fit.suffix (List.suffix_cons name rest)
  apply (reads_identifier kind).bindTakes
  refine (accepts_typeName ends binds).bind fun type middle suffix typed => ?_
  refine (accepts_assigned ends (restFit.suffix suffix) typed).bind fun value after _ follows => ?_
  exact accepts _ type value after follows

/-- A statement is taken when the end of the block is not reached. -/
theorem takes_statement (ends : EndsStatement last) (fit : Fit tokens)
    (ahead : Ahead inBlock last .next tokens) (more : tokens ≠ last) :
    Takes (statement : Parser σ ρ Statement) tokens (Ahead inBlock last .next) := by
  cases ahead with
  | finish => exact absurd rfl more
  | evaluated _ opens =>
      have taken : Takes (expression : Parser σ ρ Expression) tokens _ :=
        takes_expression ends fit opens
      obtain ⟨value, after, reads, suffix, left⟩ := taken
      exact (reads_statement_expression opens.begins reads).accepts suffix left
  | @returned keyword rest _ kind opens =>
      have restFit := fit.suffix (List.suffix_cons keyword rest)
      apply (reads_eat (by simp) kind).bindTakes
      refine (takes_expression ends restFit opens).accepts.bind fun value after _ follows => ?_
      exact accepts_make follows
  | @defined keyword name rest _ kind nameKind binds =>
      have restFit := fit.suffix (List.suffix_cons keyword (name :: rest))
      have bindingTaken : Takes (binding keyword : Parser σ ρ Variable) (name :: rest)
          (Ahead inBlock last .next) :=
        takes_binding ends nameKind restFit binds fun _ _ _ _ follows => accepts_make follows
      apply (reads_eat_none (by simp [kind])).bindAccepts (List.suffix_refl _)
      apply (reads_eat (by simp) kind).bindTakes
      exact bindingTaken.accepts.bind fun _ _ _ follows => accepts_pure follows

/-- The statements of a block are taken one by one, up to its closing bracket. -/
theorem accepts_statements {close : Token} (closeKind : close.kind = .bracket .closeCurly)
    (fit : Fit tokens) (ahead : Ahead true (close :: rest) .next tokens) (count : Nat)
    (counted : tokens.length ≤ count) :
    Accepts (itemsWithin .closeCurly (statement : Parser σ ρ Statement) count) tokens
      (· = close :: rest) := by
  have ends : EndsStatement (close :: rest) := .ofKind closeKind rfl (by simp)
  induction shrinks : tokens.length using Nat.strong_induction_on generalizing tokens count with
  | _ length inductionHypothesis =>
      by_cases finished : tokens = close :: rest
      · subst finished
        have closes : kindAhead (close :: rest) = .bracket .closeCurly := closeKind
        exact (reads_itemsWithin_nil closes count).accepts (List.suffix_refl _) rfl
      · have begins : kindAhead tokens ≠ .eof ∧ kindAhead tokens ≠ .bracket .closeCurly := by
          rcases ahead.next_cases with same | opens | word | word
          · exact absurd same finished
          · exact ⟨TokenKind.ne_of_beginsExpression opens.begins rfl,
              TokenKind.ne_of_beginsExpression opens.begins rfl⟩
          all_goals simp [word]
        have taken : Takes (statement : Parser σ ρ Statement) tokens _ :=
          takes_statement ends fit ahead finished
        apply taken.acceptsItems begins.1 begins.2 counted
        intro middle suffix shorter follows bound counted
        exact inductionHypothesis middle.length (shrinks ▸ shorter) (fit.suffix suffix) follows
          bound counted rfl

/-- A block is taken from its opening bracket to its closing one. -/
theorem accepts_block {opening close : Token} {statements : List Token}
    (openingKind : opening.kind = .bracket .openCurly)
    (derives : Derives (.many .statement) statements)
    (closeKind : close.kind = .bracket .closeCurly)
    (fit : Fit (opening :: (statements ++ close :: rest))) :
    Accepts (block : Parser σ ρ Block) (opening :: (statements ++ close :: rest)) (· = rest) := by
  have fit := fit.suffix (List.suffix_cons opening _)
  have ahead : Ahead true (close :: rest) .next (statements ++ close :: rest) :=
    derives.ahead_statements fit.apart
  apply (reads_expectBracket openingKind).bindAccepts (List.suffix_cons opening _)
  apply (accepts_remaining (accepts_statements closeKind fit ahead _ le_rfl)).bind
  rintro values _ - rfl
  apply (reads_expectBracket closeKind).bindAccepts (List.suffix_cons close rest)
  exact accepts_make rfl

/-- Parameters are taken from their opening parenthesis to their closing one. -/
theorem accepts_parameterList {opening close : Token} {parameters : List Token}
    (openingKind : opening.kind = .bracket .openParen)
    (derives : Derives (.list .binding) parameters)
    (closeKind : close.kind = .bracket .closeParen)
    (fit : Fit (opening :: (parameters ++ close :: rest))) :
    Accepts (parameterList : Parser σ ρ ParameterList) (opening :: (parameters ++ close :: rest))
      (· = rest) := by
  have fit := fit.suffix (List.suffix_cons opening _)
  apply (reads_expectBracket openingKind).bindAccepts (List.suffix_cons opening _)
  refine (accepts_listItems (fun inside after derives fit _ ends => ?_) derives closeKind fit
    le_rfl).bind ?_
  · have follows : Ahead false after .next after := .finish
    obtain ⟨name, others, same, nameKind, binds⟩ := derives.binds fit.apart follows
    rw [same] at fit ⊢
    refine ⟨by simp [nameKind], by simp [nameKind], ?_⟩
    exact takes_binding ends nameKind fit binds fun _ _ _ _ follows =>
      accepts_make follows.eq_last
  · rintro values _ - rfl
    apply (reads_expectBracket closeKind).bindAccepts (List.suffix_cons close rest)
    exact accepts_make rfl

/-- A declaration, or the end of the module. -/
def StartsDeclaration (tokens : List Token) : Prop :=
  kindAhead tokens = .eof ∨ kindAhead tokens = .keyword .funcWord ∨
    kindAhead tokens = .keyword .letWord

theorem StartsDeclaration.endsStatement (starts : StartsDeclaration tokens) :
    EndsStatement tokens := by
  rcases starts with kind | kind | kind
  all_goals exact .ofKind kind rfl (by simp)

/-- What is left of a module begins with a declaration or is at its end. -/
theorem startsDeclaration_ofModule (derives : Derives .module tokens) :
    StartsDeclaration tokens := by
  cases derives with
  | none => exact .inl rfl
  | more firstDerives _ =>
      cases firstDerives with
      | function kind => exact .inr (.inl kind)
      | declared derives =>
          cases derives with
          | definition kind _ => exact .inr (.inr kind)

/-- The type of a result is taken up to what begins no type. -/
theorem accepts_result {result : List Token} (derives : Derives (.optional .typeName) result)
    (untyped : kindAhead rest ≠ .symbol .colon) :
    Accepts (typeName : Parser σ ρ (Option Identifier)) (result ++ rest) (· = rest) := by
  have suffix := List.suffix_append result rest
  cases derives with
  | absent => exact (reads_optional_none untyped).accepts suffix rfl
  | present derives =>
      cases derives with
      | typeName colonKind nameKind =>
          exact (reads_optional_some (by simp) colonKind (reads_identifier nameKind)).accepts
            suffix rfl

/-- A body is taken, and when there is none the next declaration is left. -/
theorem accepts_body {body : List Token} (derives : Derives (.optional .body) body)
    (starts : StartsDeclaration rest) (fit : Fit (body ++ rest)) :
    Accepts (optional (.symbol .arrow) block : Parser σ ρ (Option Block)) (body ++ rest)
      (· = rest) := by
  cases derives with
  | absent =>
      have bodiless : kindAhead rest ≠ .symbol .arrow := by
        rcases starts with kind | kind | kind <;> simp [kind]
      exact (reads_optional_none bodiless).accepts (List.suffix_refl rest) rfl
  | present derives =>
      cases derives with
      | @body arrow opening close statements arrowKind openingKind statementsDerive closeKind =>
          simp only [List.cons_append, List.append_assoc, List.nil_append] at fit ⊢
          have blockFit := fit.suffix (List.suffix_cons arrow _)
          apply (reads_eat (by simp) arrowKind).bindAccepts (List.suffix_cons arrow _)
          apply (accepts_block openingKind statementsDerive closeKind blockFit).bind
          exact fun _ _ _ left => accepts_pure left

/-- A function is taken after its keyword, up to the next declaration. -/
theorem accepts_function {keyword name opening close : Token} {parameters result body : List Token}
    (nameKind : name.kind = .identifier) (openingKind : opening.kind = .bracket .openParen)
    (parametersDerive : Derives (.list .binding) parameters)
    (closeKind : close.kind = .bracket .closeParen)
    (resultDerives : Derives (.optional .typeName) result)
    (bodyDerives : Derives (.optional .body) body) (starts : StartsDeclaration rest)
    (fit : Fit (name :: opening :: (parameters ++ close :: (result ++ (body ++ rest))))) :
    Accepts (function keyword : Parser σ ρ FunctionDeclaration)
      (name :: opening :: (parameters ++ close :: (result ++ (body ++ rest)))) (· = rest) := by
  have parametersFit := fit.suffix (List.suffix_cons name _)
  have bodyFit := parametersFit.suffix
    (⟨opening :: (parameters ++ close :: result), by simp⟩ : body ++ rest <:+ _)
  have untyped : kindAhead (body ++ rest) ≠ .symbol .colon := by
    cases bodyDerives with
    | absent => exact starts.endsStatement.2
    | present derives =>
        cases derives with
        | body arrowKind => simp [arrowKind]
  apply (reads_identifier nameKind).bindAccepts (List.suffix_cons name _)
  apply (accepts_parameterList openingKind parametersDerive closeKind parametersFit).bind
  rintro list _ - rfl
  apply (accepts_result resultDerives untyped).bind
  rintro type _ - rfl
  apply (accepts_body bodyDerives starts bodyFit).bind
  rintro block _ - rfl
  exact accepts_make rfl

/-- A variable is taken after its keyword, up to the next declaration. -/
theorem accepts_definition {keyword : Token} (derives : Derives .binding tokens)
    (starts : StartsDeclaration rest) (fit : Fit (tokens ++ rest)) :
    Accepts (binding keyword : Parser σ ρ Variable) (tokens ++ rest) (· = rest) := by
  have follows : Ahead false rest .next rest := .finish
  obtain ⟨name, others, same, nameKind, binds⟩ := derives.binds fit.apart follows
  rw [same] at fit ⊢
  have taken : Takes (binding keyword : Parser σ ρ Variable) (name :: others) (· = rest) :=
    takes_binding starts.endsStatement nameKind fit binds fun _ _ _ _ follows =>
      accepts_make follows.eq_last
  exact taken.accepts

/-- The declarations of a module are taken up to its end. -/
theorem accepts_declarationsWithin (derives : Derives .module tokens) (fit : Fit tokens)
    (count : Nat) (counted : tokens.length ≤ count) :
    Accepts (declarationsWithin count : Parser σ ρ (List Declaration)) tokens (· = []) := by
  generalize same : Nonterminal.module = nonterminal at derives
  induction derives generalizing count with
  | none =>
      cases count with
      | zero => exact accepts_pure rfl
      | succ count =>
          exact ((reads_hasNext []).bind (reads_pure [] [])).accepts (List.suffix_refl []) rfl
  | @more _ first rest firstDerives restDerives _ restTaken =>
      cases same
      have starts := startsDeclaration_ofModule restDerives
      have restTaken := fun count counted =>
        restTaken (fit.suffix (List.suffix_append first rest)) count counted rfl
      cases firstDerives with
      | @function keyword name opening close parameters result body keywordKind nameKind openingKind
          parametersDerive closeKind resultDerives bodyDerives =>
          simp only [List.cons_append, List.append_assoc] at fit counted ⊢
          simp only [List.length_cons, List.length_append] at counted
          obtain ⟨count, rfl⟩ : ∃ before, count = before + 1 :=
            Nat.exists_eq_add_one_of_ne_zero (by omega)
          have functionFit := fit.suffix (List.suffix_cons keyword _)
          apply (reads_hasNext _).bindAccepts (List.suffix_refl _)
          rw [decide_eq_true (by simp [keywordKind])]
          apply (reads_eat (by simp) keywordKind).bindAccepts (List.suffix_cons keyword _)
          apply (accepts_function nameKind openingKind parametersDerive closeKind resultDerives
            bodyDerives starts functionFit).bind
          rintro declared _ - rfl
          apply (restTaken count (by omega)).bind
          exact fun _ _ _ left => accepts_pure left
      | declared derives =>
          cases derives with
          | @definition keyword tokens kind bindingDerives =>
              rw [List.cons_append] at fit counted ⊢
              rw [List.length_cons, List.length_append] at counted
              obtain ⟨count, rfl⟩ : ∃ before, count = before + 1 :=
                Nat.exists_eq_add_one_of_ne_zero (by omega)
              have bindingFit := fit.suffix (List.suffix_cons keyword (tokens ++ rest))
              have bindingTaken : Accepts (binding keyword : Parser σ ρ Variable) _ _ :=
                accepts_definition bindingDerives starts bindingFit
              apply (reads_hasNext _).bindAccepts (List.suffix_refl _)
              rw [decide_eq_true (by simp [kind])]
              apply (reads_eat_none (by simp [kind])).bindAccepts (List.suffix_refl _)
              apply (reads_eat (by simp) kind).bindAccepts (List.suffix_cons keyword _)
              apply bindingTaken.bind
              rintro definition _ - rfl
              apply (restTaken count (by omega)).bind
              exact fun _ _ _ left => accepts_pure left
  | _ => cases same

end Parser

end FrontEnd
