/-
  Explicit specializations are read as template declarations.

  * `Specializations.foreseen`: what `template < >` tells: no declaration of another kind starts with it,
    and the list of parameters behind the `<` can be empty, since a parameter can.
  * `Grammar.Specializes`: the rules that read a specialization.
  * `Grammar.Specializes.gives_template`: where a specialization can be read, a template declaration without
    parameters is read in its place.
  * `Grammar.standard_specialization_as_template`: so it is in every dialect.
  * `Grammar.specialization_unclassified`: a declaration that is an explicit specialization, but is not
    classified as one.
-/
import PackratCpp.Proofs.Branches
import PackratCpp.Proofs.Foresight

namespace PackratCpp

/-! ## What the first tokens tell -/

namespace Specializations

/-- `template < >`. -/
def openings : List (List Sight) := [[.word "template"], [.symbol "<"], [.symbol ">"]]

/-- What is to be foreseen: the kinds of declaration that are tried before templates fail, and there are
no parameters. -/
def facts : List Known := [
  ⟨.blockDeclaration, 0, .failed⟩,
  ⟨.functionDefinition, 0, .failed⟩,
  ⟨.templateParameterList, 2, .matched 2 []⟩]

theorem foreseen : ∀ gnu managed atl : Bool,
    Extensions.foresee ⟨gnu, managed, atl⟩ [⟨⟨openings, [], []⟩, facts⟩] = true := by
  decide +kernel

/-- The tree of an empty list of parameters behind the word at `p`. -/
def noParameters (p : Nat) : Tree :=
  .node .templateParameterListEnclosed (p + 1) (p + 3) [.leaf (p + 1), .leaf (p + 2)]

end Specializations

open Specializations

/-! ## The rules at work -/

/-- How a grammar declares templates and their specializations. -/
structure Grammar.Specializes (g : Grammar) : Prop where
  specialization : g.find? .explicitSpecialization = some ⟨.seq [.token (.keyword .kTemplate),
    .token (.text "<"), .token (.text ">"), .rule .declaration], false⟩
  template : g.find? .templateDeclaration = some ⟨.seq [.token (.keyword .kTemplate),
    .rule .templateParameterListEnclosed, .rule .declaration], false⟩
  parameters : ∃ more, g.find? .templateParameterListEnclosed = some ⟨.choice (.seq [
    .token (.text "<"), .rule .templateParameterList, .token (.text ">")] :: more), false⟩
  -- Templates come before their specializations.
  declaration : ∃ more, g.find? .declaration = some ⟨.choice (.rule .blockDeclaration ::
    .rule .functionDefinition :: .rule .templateDeclaration :: more), false⟩

theorem Dialect.specializes (d : Dialect) : (d.grammar []).Specializes := by
  constructor
  case specialization =>
    exact find?_of_group Rules.templateForms 2 (by simp [groups]) rfl
  case template =>
    exact find?_of_group Rules.templateParameters 0 (by simp [groups]) rfl
  case parameters =>
    exact ⟨_, find?_of_group Rules.templateParameters 2 (by simp [groups]) rfl⟩
  case declaration =>
    obtain ⟨more, hstep⟩ : ∃ more, (Rules.declarations d.extensions)[1]? =
        some (.define .declaration (.choice (.rule .blockDeclaration :: .rule .functionDefinition ::
          .rule .templateDeclaration :: more)) false) := by
      rcases d.extensions with ⟨gnu, _ | _, _ | _⟩ <;> exact ⟨_, rfl⟩
    exact ⟨more, find?_of_group _ 1 (by simp [groups]) hstep⟩

namespace Grammar.Specializes

variable {g : Grammar} {tokens : TokenStream} {p stop : Nat} {body : List Tree}

/-- What a specialization is made of: three tokens, and a declaration. -/
theorem matched_cases {r : Rule} {trees : List Tree} {log : List Attempt}
    (h : Derives g tokens r (.expr (.seq [.token (.keyword .kTemplate), .token (.text "<"),
      .token (.text ">"), .rule .declaration])) p (.matched stop trees) log) :
    ∃ word opening closing body,
      (tokens.get? p = some word ∧ (Terminal.keyword .kTemplate).accepts word = true) ∧
      (tokens.get? (p + 1) = some opening ∧ (Terminal.text "<").accepts opening = true) ∧
      (tokens.get? (p + 2) = some closing ∧ (Terminal.text ">").accepts closing = true) ∧
      g.Gives tokens .declaration (p + 3) (.matched stop body) ∧
      trees = .leaf p :: .leaf (p + 1) :: .leaf (p + 2) :: body := by
  obtain ⟨_, _, _, _, _, rfl, hword, h₁⟩ := h.seq_cons
  obtain ⟨rfl, rfl, word, hword⟩ := hword.token_matched
  obtain ⟨_, _, _, _, _, rfl, hopening, h₂⟩ := h₁.seq_cons
  obtain ⟨rfl, rfl, opening, hopening⟩ := hopening.token_matched
  obtain ⟨_, _, _, _, _, rfl, hclosing, h₃⟩ := h₂.seq_cons
  obtain ⟨rfl, rfl, closing, hclosing⟩ := hclosing.token_matched
  obtain ⟨_, body, _, _, _, rfl, hbody, h₄⟩ := h₃.seq_cons
  obtain ⟨rfl, rfl⟩ := h₄.seq_nil
  exact ⟨word, opening, closing, body, hword, hopening, hclosing, hbody.gives, by simp⟩

variable (hg : g.Specializes) {word opening closing : Token}
  (htemplate : tokens.get? p = some word ∧ (Terminal.keyword .kTemplate).accepts word = true)
  (hopening : tokens.get? (p + 1) = some opening ∧ (Terminal.text "<").accepts opening = true)
  (hclosing : tokens.get? (p + 2) = some closing ∧ (Terminal.text ">").accepts closing = true)
include hg hopening hclosing

theorem gives_noParameters
    (hlist : g.Gives tokens .templateParameterList (p + 2) (.matched (p + 2) [])) :
    g.Gives tokens .templateParameterListEnclosed (p + 1)
      (.matched (p + 3) [noParameters p]) := by
  obtain ⟨more, hf⟩ := hg.parameters
  obtain ⟨_, hparameters⟩ := hlist .templateParameterListEnclosed
  exact Derives.gives_node (.choice (.alternativesMatch (.seq
    (.itemsMatch (.tokenPass hopening.1 hopening.2) (.itemsMatch hparameters
      (.itemsMatch (.tokenPass hclosing.1 hclosing.2) .itemsDone)))))) hf (by omega)

include htemplate

/-- **Where a specialization can be read, a template without parameters is declared**, if no kind of
declaration that is tried before templates can be read there. -/
theorem gives_template (hblock : g.Gives tokens .blockDeclaration p .failed)
    (hfunction : g.Gives tokens .functionDefinition p .failed)
    (hlist : g.Gives tokens .templateParameterList (p + 2) (.matched (p + 2) []))
    (hbody : g.Gives tokens .declaration (p + 3) (.matched stop body)) :
    g.Gives tokens .declaration p (.matched stop [.node .declaration p stop
      [.node .templateDeclaration p stop (.leaf p :: noParameters p :: body)]]) := by
  obtain ⟨more, hf⟩ := hg.declaration
  have hle : p + 3 ≤ stop := (hbody .declaration).elim fun _ h => h.yields.le
  have hdeclaration : g.Gives tokens .templateDeclaration p (.matched stop
      [.node .templateDeclaration p stop (.leaf p :: noParameters p :: body)]) := by
    obtain ⟨_, hparameters⟩ :=
      gives_noParameters hg hopening hclosing hlist .templateDeclaration
    obtain ⟨_, hbody⟩ := hbody .templateDeclaration
    have hitems := Derives.itemsMatch hparameters (.itemsMatch hbody .itemsDone)
    rw [List.append_nil] at hitems
    exact Derives.gives_node (.seq (.itemsMatch (.tokenPass htemplate.1 htemplate.2) hitems))
      hg.template (by omega)
  obtain ⟨_, hblock⟩ := hblock .declaration
  obtain ⟨_, hfunction⟩ := hfunction .declaration
  obtain ⟨_, hdeclaration⟩ := hdeclaration .declaration
  exact Derives.gives_node (.choice (.alternativesNext hblock (.alternativesNext hfunction
    (.alternativesMatch hdeclaration)))) hf (by omega)

end Grammar.Specializes

namespace Grammar

/-! ## Parses -/

/-- **Explicit specializations are read as template declarations.**

In every dialect, for every stream in which the two tokens behind the first one are punctuators, as the
lexer makes them: where an unlimited parse as an explicit specialization finds a tree, an unlimited parse
as a declaration finds one for the same tokens, in which a template declaration with an empty list of
parameters stands for the specialization.  It is tried first, and a parameter may be empty. -/
theorem standard_specialization_as_template (d : Dialect) : ∃ g, standard? d [] = .ok g ∧
    ∀ (tokens : TokenStream) (r : Parse),
      (∀ t, tokens.get? 1 = some t → t.kind = .punctuator) →
      (∀ t, tokens.get? 2 = some t → t.kind = .punctuator) →
      g.parse tokens .explicitSpecialization none = .ok r →
      ∃ stop body, r.tree =
          .node .explicitSpecialization 0 stop (.leaf 0 :: .leaf 1 :: .leaf 2 :: body) ∧
        ∃ r', g.parse tokens .declaration none = .ok r' ∧
          r'.tree = .node .declaration 0 stop
            [.node .templateDeclaration 0 stop (.leaf 0 :: noParameters 0 :: body)] := by
  refine ⟨_, standard?_eq d [], fun tokens r hkind hkind' hr => ?_⟩
  have hg := d.specializes
  obtain ⟨stop, trees, log, hd, hstop, htree⟩ :=
    (Dialect.reads_of_parse hr).exists_derives hg.specialization
  obtain ⟨word, opening, closing, body, htemplate, hopening, hclosing, hbody, rfl⟩ :=
    Specializes.matched_cases hd
  have hword : (d.grammar []).Sees tokens 0 (.word "template") :=
    Grammar.sees_word htemplate.1 (Terminal.keyword_of_accepts htemplate.2)
  have hless : (d.grammar []).Sees tokens 1 (.symbol "<") :=
    Grammar.sees_symbol hopening.1 ⟨hkind _ hopening.1, Terminal.text_of_accepts hopening.2⟩
  have hgreater : (d.grammar []).Sees tokens 2 (.symbol ">") :=
    Grammar.sees_symbol hclosing.1 ⟨hkind' _ hclosing.1, Terminal.text_of_accepts hclosing.2⟩
  have hfits : (⟨openings, [], []⟩ : Window).Fits (d.grammar []) tokens 0 3 fun _ => .leaf 0 := {
    apart := Nat.le_refl 3
    near := by
      refine ⟨?_, ?_, ?_, trivial⟩
      · exact ⟨_, List.mem_singleton_self _, hword⟩
      · exact ⟨_, List.mem_singleton_self _, hless⟩
      · exact ⟨_, List.mem_singleton_self _, hgreater⟩
    far := trivial
    known := nofun }
  have hblock := hfits.gives_of_foreseen foreseen 0 rfl 0 rfl
  have hfunction := hfits.gives_of_foreseen foreseen 0 rfl 1 rfl
  have hlist := hfits.gives_of_foreseen foreseen 0 rfl 2 rfl
  obtain ⟨r', hr', htree'⟩ :=
    (hg.gives_template htemplate hopening hclosing hblock hfunction hlist hbody).parse hstop
  exact ⟨stop, body, htree, r', hr', htree'⟩

/-- `template <> int x;`. -/
def intSpecialization : TokenStream :=
  .terminated [⟨.keyword, "template", 1, 1, 0⟩, ⟨.punctuator, "<", 1, 10, 9⟩,
    ⟨.punctuator, ">", 1, 11, 10⟩, ⟨.keyword, "int", 1, 13, 12⟩, ⟨.identifier, "x", 1, 17, 16⟩,
    ⟨.punctuator, ";", 1, 18, 17⟩] ⟨.eof, "", 1, 19, 18⟩

theorem forecast_intSpecialization :
    (Dialect.standard.forecast intSpecialization .explicitSpecialization).map (·.isSome) =
      some true := by
  decide +kernel

/-- It is an explicit specialization, and so it is read as a template declaration. -/
theorem intSpecialization_as_template : ∃ g, standard? .standard [] = .ok g ∧
    (∀ t, intSpecialization.get? 1 = some t → t.kind = .punctuator) ∧
    (∀ t, intSpecialization.get? 2 = some t → t.kind = .punctuator) ∧
    ∃ r, g.parse intSpecialization .explicitSpecialization none = .ok r ∧
      ∃ stop body, r.tree =
          .node .explicitSpecialization 0 stop (.leaf 0 :: .leaf 1 :: .leaf 2 :: body) ∧
        ∃ r', g.parse intSpecialization .declaration none = .ok r' ∧
          r'.tree = .node .declaration 0 stop
            [.node .templateDeclaration 0 stop (.leaf 0 :: noParameters 0 :: body)] := by
  have hkind : ∀ t, intSpecialization.get? 1 = some t → t.kind = .punctuator := by
    rintro t ⟨⟩
    rfl
  have hkind' : ∀ t, intSpecialization.get? 2 = some t → t.kind = .punctuator := by
    rintro t ⟨⟩
    rfl
  obtain ⟨_, hforecast⟩ := Dialect.exists_forecast forecast_intSpecialization
  obtain ⟨r, hr, -⟩ := Dialect.parse_of_forecast hforecast
  obtain ⟨g, hg, htemplate⟩ := standard_specialization_as_template .standard
  cases (standard?_eq _ _).symm.trans hg
  exact ⟨_, hg, hkind, hkind', r, hr, htemplate intSpecialization r hkind hkind' hr⟩

/-- **A declaration is an explicit specialization, but is not classified as one**: its only child is a
template declaration. -/
theorem specialization_unclassified : ∃ g, standard? .standard [] = .ok g ∧
    (∃ r, g.parse intSpecialization .explicitSpecialization none = .ok r) ∧
    ∃ r, g.parse intSpecialization .declaration none = .ok r ∧
      r.tree.children.map (·.rule?) = [some .templateDeclaration] := by
  have hdeclaration : (Dialect.standard.forecast intSpecialization .declaration).map
      (·.map fun t => t.children.map (·.rule?)) = some (some [some .templateDeclaration]) := by
    decide +kernel
  obtain ⟨_, hforecast⟩ := Dialect.exists_forecast forecast_intSpecialization
  obtain ⟨r, hr, -⟩ := Dialect.parse_of_forecast hforecast
  obtain ⟨r', hr', hchildren⟩ := Dialect.parse_of_forecast_map hdeclaration
  exact ⟨_, standard?_eq _ _, ⟨r, hr⟩, r', hr', hchildren⟩

end Grammar

end PackratCpp
