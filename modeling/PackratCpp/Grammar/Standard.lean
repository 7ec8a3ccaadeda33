/-
  The grammar of C and C++.

  * `Rules.all`: every rule of the registry with its body, for one dialect.
  * `Grammar.standard?`: the grammar, in which some rules may be replaced by stand-ins.

  Constructs of a dialect that is off are no part of the grammar.
-/
import PackratCpp.Grammar.Rules.Literals
import PackratCpp.Grammar.Rules.TopLevel
import PackratCpp.Grammar.Rules.Operands
import PackratCpp.Grammar.Rules.Operators
import PackratCpp.Grammar.Rules.Statements
import PackratCpp.Grammar.Rules.Declarations
import PackratCpp.Grammar.Rules.Namespaces
import PackratCpp.Grammar.Rules.Attributes
import PackratCpp.Grammar.Rules.Declarators
import PackratCpp.Grammar.Rules.Classes
import PackratCpp.Grammar.Rules.Managed
import PackratCpp.Grammar.Rules.Templates
import PackratCpp.Grammar.Rules.Exceptions

namespace PackratCpp

open Rules in
/-- Every rule and its body in a dialect. -/
def Dialect.rules (d : Dialect) : List GrammarStep :=
  let ext := d.extensions
  literals ++ topLevel d.errorRecovery ++
  names ext ++ lambdas ++ postfixes ++ unary ++ operators ext ++
  statements ext ++
  declarations ext ++ attributedDeclarations ++ specifiers ++ types ext ++ enumerations ext ++
  namespaces ext ++ attributes ext ++
  declarators ext ++ abstractDeclarators ++ parameters ext ++ functions ++ initializers ext ++
  classes ext ++ members ext ++ bases ext ++ specialMembers ++ operatorNames ++
  managedModifiers ++ events ++ properties ++ generics ++ attributeSections ++
  templateParameters ++ templateIds ext ++ templateForms ++ exceptions ext

/-- The grammar of a dialect in which the rules of `mocks` have stand-ins. -/
def Grammar.standard? (d : Dialect) (mocks : List Rule) : Except GrammarError Grammar :=
  Grammar.ofSteps? d (d.rules ++ mocks.map .mock)

end PackratCpp
