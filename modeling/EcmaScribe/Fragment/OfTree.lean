/-
# EcmaScribe.Fragment.OfTree -- the fragment of a tree

`Node.fragment` gives every tree the fragment that it contributes to the script.  A list
of trees gives a list of fragments, an optional tree an optional fragment, and a part of
a template the piece of template text that it is; every other tree gives one fragment.

Parentheses come from four sources: the level that a place asks for (`atLeast`), the
hazards at the start of a statement, of an arrow body, of a default export and of a loop
head, a bare `in` in a loop head, and braces around an `if` that would take the `else` of
the statement it is part of.
-/
import EcmaScribe.Fragment.Phrase

namespace EcmaScribe

set_option autoImplicit false

/-- What a tree of a category is turned into. -/
@[reducible] def Category.Output : Category → Type
  | .list c => List c.Output
  | .option c => Option c.Output
  | .templatePart => Fragment.TemplatePiece
  | _ => Fragment

namespace Node

open Fragment (token spaced statement atLeast parenIf defaulted keyed)

/-- The fragment of a tree. -/
def fragment {c : Category} : Node c → c.Output
  -- sequences and optional children
  | nil => []
  | cons head tail => head.fragment :: tail.fragment
  | none => Option.none
  | some node => Option.some node.fragment
  -- names
  | boundName name => .lexeme (.name .bound name)
  | usedName name => .lexeme (.name .used name)
  | assignedName name => .lexeme (.name .assigned name)
  -- programs and modules
  | script directives statements => .lines (directives.fragment ++ statements.fragment)
  | moduleRoot directives items => .lines (directives.fragment ++ items.fragment)
  | directive raw => statement (.lexeme (.directive raw))
  | importNames default named specifier =>
      Fragment.importNames default.fragment named.fragment specifier
  | importNamespace default space specifier =>
      Fragment.importNamespace default.fragment space.fragment specifier
  | exported declaration => spaced [token "export", declaration.fragment]
  | exportAll specifier =>
      statement (spaced (token "export" :: token "*" :: Fragment.fromClause specifier))
  | exportFrom named specifier =>
      statement (spaced (token "export" :: .brace (.commaSep named.fragment) ::
        Fragment.fromClause specifier))
  | exportLocals named => statement (spaced [token "export", .brace (.commaSep named.fragment)])
  | exportDefault body => spaced [token "export", token "default", body.fragment]
  | itemStatement item => item.fragment
  | importSpecifier name binding =>
      Fragment.renamed (name.map Fragment.specifierName) binding.fragment
  | exportFunction declaration => declaration.fragment
  | exportClass declaration => declaration.fragment
  | exportVariables declaration => statement declaration.fragment
  | exportFromSpecifier name Option.none => Fragment.specifierName name
  | exportFromSpecifier name (Option.some outer) =>
      Fragment.renamed (Option.some (Fragment.specifierName name)) (Fragment.specifierName outer)
  | exportLocalSpecifier name Option.none => name.fragment
  | exportLocalSpecifier name (Option.some outer) =>
      Fragment.renamed (Option.some name.fragment) (Fragment.specifierName outer)
  | defaultFunction declaration => declaration.fragment
  | defaultClass declaration => declaration.fragment
  | defaultExpression expression =>
      let f := atLeast .assignment expression expression.fragment
      statement (parenIf f.leading.startsWithFunctionOrClass f)
  -- statements
  | blockStatement body => body.fragment
  | breakTo label =>
      statement (spaced (token "break" :: label.toList.map fun l => .lexeme (.name .label l)))
  | continueTo label =>
      statement (spaced (token "continue" :: label.toList.map fun l => .lexeme (.name .label l)))
  | debugger => statement (token "debugger")
  | doWhile body test =>
      statement (spaced [token "do", body.fragment, token "while", .paren test.fragment])
  | empty => .semicolon
  | evaluate expression =>
      let f := expression.fragment
      statement (parenIf f.leading.isStatementHazard f)
  | forIn left right body =>
      let f := left.fragment
      spaced [token "for",
        .paren (spaced [parenIf f.leading.startsWithLetBracket f, token "in", right.fragment]),
        body.fragment]
  | forOf left right body =>
      let f := left.fragment
      spaced [token "for",
        .paren (spaced [parenIf f.leading.startsWithLet f, token "of",
          atLeast .assignment right right.fragment]),
        body.fragment]
  | forLoop init test advance body =>
      let init : Fragment := match init.fragment with
        | Option.some f => .noIn f
        | Option.none => .empty
      let clause (f : Option Fragment) := f.toList.flatMap fun f => [.space, f]
      spaced [token "for",
        .paren (.seq (init :: token ";" :: clause test.fragment ++ token ";" ::
          clause advance.fragment)),
        body.fragment]
  | ifElse test consequent alternate =>
      let f := consequent.fragment
      match alternate.fragment with
      | Option.some alternate =>
          spaced [token "if", .paren test.fragment,
            if f.missingElse then Fragment.block [f] else f, token "else", alternate]
      | Option.none =>
          .marked .endsWithMissingElse (spaced [token "if", .paren test.fragment, f])
  | labeled label body => keyed (.lexeme (.name .label label)) body.fragment
  | returnValue value => statement (spaced (token "return" :: value.fragment.toList))
  | switch discriminant cases =>
      spaced [token "switch", .paren discriminant.fragment, Fragment.block cases.fragment]
  | switchWithDefault discriminant before default after =>
      spaced [token "switch", .paren discriminant.fragment,
        Fragment.block (before.fragment ++ default.fragment :: after.fragment)]
  | throw value => statement (spaced [token "throw", value.fragment])
  | tryCatch body handler => spaced [token "try", body.fragment, handler.fragment]
  | tryFinally body handler finalizer =>
      spaced (token "try" :: body.fragment ::
        handler.fragment.toList ++ [token "finally", finalizer.fragment])
  | declare declaration => statement declaration.fragment
  | whileLoop test body => spaced [token "while", .paren test.fragment, body.fragment]
  | withObject scope body => spaced [token "with", .paren scope.fragment, body.fragment]
  | functionStatement declaration => declaration.fragment
  | classStatement declaration => declaration.fragment
  -- parts of statements
  | block statements => Fragment.block statements.fragment
  | loopVariables declaration => declaration.fragment
  | loopTarget target => target.fragment
  | initVariables declaration => declaration.fragment
  | initExpression expression =>
      let f := expression.fragment
      parenIf f.leading.startsWithLetBracket f
  | switchCase test consequent =>
      .seq [spaced [token "case", test.fragment], token ":",
        .indent (.lines consequent.fragment)]
  | switchDefault consequent =>
      .seq [token "default", token ":", .indent (.lines consequent.fragment)]
  | catchClause binding body => spaced [token "catch", .paren binding.fragment, body.fragment]
  | variableDeclaration kind declarators =>
      spaced [token kind.text, .commaSep declarators.fragment]
  | declarator binding none => binding.fragment
  | declarator binding (some init) => defaulted binding.fragment init init.fragment
  -- functions and classes
  | functionDeclaration isAsync isGenerator name params body =>
      Fragment.function isAsync isGenerator (Fragment.declaredName name name.fragment)
        params.fragment body.fragment
  | classDeclaration name none elements =>
      Fragment.class_ (Fragment.declaredName name name.fragment) Option.none elements.fragment
  | classDeclaration name (some heritage) elements =>
      Fragment.class_ (Fragment.declaredName name name.fragment)
        (Option.some (atLeast .new heritage heritage.fragment)) elements.fragment
  | parameters items rest => Fragment.parameterList items.fragment rest.fragment
  | functionBody directives statements =>
      Fragment.block (directives.fragment ++ statements.fragment)
  | arrowBlock body => body.fragment
  | arrowResult expression =>
      let f := atLeast .assignment expression expression.fragment
      parenIf f.leading.startsWithCurly f
  | classElement isStatic member =>
      if isStatic then spaced [token "static", member.fragment] else member.fragment
  | method isAsync isGenerator name params body =>
      Fragment.method isAsync isGenerator name.fragment params.fragment body.fragment
  | getter name body => Fragment.accessor "get" name.fragment .empty body.fragment
  | setter name param body => Fragment.accessor "set" name.fragment param.fragment body.fragment
  -- expressions
  | array elements => .bracket (Fragment.elements elements.fragment)
  | arrow isAsync params body =>
      .seq (Fragment.asyncHead isAsync ++
        [spaced [Fragment.arrowParameters params params.fragment, token "=>", body.fragment]])
  | assign target value => defaulted target.fragment value value.fragment
  | await operand => spaced [token "await", atLeast .prefixed operand operand.fragment]
  | binary left operator right =>
      Fragment.binary left operator right left.fragment right.fragment
  | call callee arguments =>
      .seq [parenIf (callee.precedence < .call) callee.fragment,
        .paren (.commaSep arguments.fragment)]
  | classExpression name none elements =>
      .marked .startsWithFunctionOrClass
        (Fragment.class_ name.fragment Option.none elements.fragment)
  | classExpression name (some heritage) elements =>
      .marked .startsWithFunctionOrClass
        (Fragment.class_ name.fragment (Option.some (atLeast .new heritage heritage.fragment))
          elements.fragment)
  | compoundAssign target operator value =>
      spaced [target.fragment, token operator.text, atLeast .assignment value value.fragment]
  | computedMember base key => Fragment.computedMember base base.fragment key.fragment
  | conditional test consequent alternate =>
      spaced [atLeast .logicalOr test test.fragment, token "?",
        atLeast .assignment consequent consequent.fragment, token ":",
        atLeast .assignment alternate alternate.fragment]
  | functionExpression isAsync isGenerator name params body =>
      .marked .startsWithFunctionOrClass
        (Fragment.function isAsync isGenerator name.fragment params.fragment body.fragment)
  | identifier name => name.fragment
  | boolean value => token (if value then "true" else "false")
  | infinity => .lexeme (.number (.infinity false))
  | null => token "null"
  | number value => .lexeme (.number value)
  | regExp pattern flags => .lexeme (.regExp pattern flags)
  | string value => .lexeme (.string value)
  | new callee nil =>
      spaced [token "new", parenIf (callee.hasCallOnLeftSpine || callee.precedence < .member)
        callee.fragment]
  | new callee arguments =>
      .seq [spaced [token "new", parenIf (callee.hasCallOnLeftSpine || callee.precedence < .member)
        callee.fragment], .paren (.commaSep arguments.fragment)]
  | newTarget => .seq [token "new", token ".", token "target"]
  | object properties => Fragment.objectBraces properties.fragment
  | staticMember base property => Fragment.staticMember base base.fragment property
  | template none parts => Fragment.template Option.none parts.fragment
  | template (some tag) parts =>
      Fragment.template (Option.some (atLeast .call tag tag.fragment)) parts.fragment
  | thisValue => token "this"
  | unary operator operand => Fragment.unary operator operand operand.fragment
  | update leading operator operand =>
      if leading then .seq [token operator.text, operand.fragment]
      else .seq [operand.fragment, token operator.text]
  | .yield none => token "yield"
  | .yield (some value) => spaced [token "yield", atLeast .assignment value value.fragment]
  | yieldFrom source =>
      .seq [token "yield", spaced [token "*", atLeast .assignment source source.fragment]]
  -- parts of expressions
  | superObject => token "super"
  | subject expression => expression.fragment
  | spread expression => Fragment.rest (atLeast .assignment expression expression.fragment)
  | argument expression => atLeast .assignment expression expression.fragment
  | chunk raw => .text raw
  | substitution expression => .code expression.fragment
  | dataProperty name value => keyed name.fragment (atLeast .assignment value value.fragment)
  | shorthand name => name.fragment
  | methodProperty member => member.fragment
  | staticName value => Fragment.propertyKey value
  | computedName expression => .bracket (atLeast .assignment expression expression.fragment)
  -- binding patterns
  | bindingName name => name.fragment
  | arrayBinding elements rest => Fragment.arrayPattern elements.fragment rest.fragment
  | objectBinding properties => Fragment.objectBraces properties.fragment
  | bindingWithDefault binding init => defaulted binding.fragment init init.fragment
  | parameter binding => binding.fragment
  | bindingShorthand name none => name.fragment
  | bindingShorthand name (some init) => defaulted name.fragment init init.fragment
  | bindingProperty name binding => keyed name.fragment binding.fragment
  -- assignment targets
  | targetName name => name.fragment
  | staticMemberTarget base property => Fragment.staticMember base base.fragment property
  | computedMemberTarget base key => Fragment.computedMember base base.fragment key.fragment
  | arrayTarget elements rest => Fragment.arrayPattern elements.fragment rest.fragment
  | objectTarget properties => Fragment.objectBraces properties.fragment
  | simpleTarget target => target.fragment
  | targetWithDefault target init => defaulted target.fragment init init.fragment
  | targetElement target => target.fragment
  | targetShorthand name none => name.fragment
  | targetShorthand name (some init) => defaulted name.fragment init init.fragment
  | targetProperty name target => keyed name.fragment target.fragment

end Node

end EcmaScribe
