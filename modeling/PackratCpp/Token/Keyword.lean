/-
  Reserved words.

  * `Keyword`: the words that the lexer reports with the kind `TokenKind.keyword`.
    Contextual words (`ref`, `each`, `sealed`, …) are plain identifiers, and the
    grammar matches those by text.
  * `Keyword.text`, `Keyword.ofText?`: a word and its spelling determine each other
    (`ofText?_text`).
  * `Keyword.isC`: the words that are reserved in C as well.
-/

namespace PackratCpp

/-- A reserved word of C++. -/
inductive Keyword where
  | kAlignas
  | kAlignof
  | kAsm
  | kAuto
  | kBool
  | kBreak
  | kCase
  | kCatch
  | kChar
  | kChar16T
  | kChar32T
  | kClass
  | kConst
  | kConstexpr
  | kConstCast
  | kContinue
  | kDecltype
  | kDefault
  | kDelete
  | kDo
  | kDouble
  | kDynamicCast
  | kElse
  | kEnum
  | kExplicit
  | kExport
  | kExtern
  | kFalse
  | kFinal
  | kFloat
  | kFor
  | kFriend
  | kGcnew
  | kGoto
  | kIf
  | kInline
  | kInt
  | kLong
  | kMutable
  | kNamespace
  | kNew
  | kNoexcept
  | kNullptr
  | kOperator
  | kOverride
  | kPrivate
  | kProtected
  | kPublic
  | kRegister
  | kReinterpretCast
  | kReturn
  | kShort
  | kSigned
  | kSizeof
  | kStatic
  | kStaticAssert
  | kStaticCast
  | kStruct
  | kSwitch
  | kTemplate
  | kThis
  | kThreadLocal
  | kThrow
  | kTrue
  | kTry
  | kTypedef
  | kTypeid
  | kTypename
  | kUnion
  | kUnsigned
  | kUsing
  | kVirtual
  | kVoid
  | kVolatile
  | kWcharT
  | kWhile
  deriving DecidableEq, Inhabited

namespace Keyword

/-- Every reserved word, in registry order. -/
def all : List Keyword :=
  [.kAlignas, .kAlignof, .kAsm, .kAuto, .kBool, .kBreak, .kCase, .kCatch, .kChar, .kChar16T,
    .kChar32T, .kClass, .kConst, .kConstexpr, .kConstCast, .kContinue, .kDecltype, .kDefault,
    .kDelete, .kDo, .kDouble, .kDynamicCast, .kElse, .kEnum, .kExplicit, .kExport, .kExtern,
    .kFalse, .kFinal, .kFloat, .kFor, .kFriend, .kGcnew, .kGoto, .kIf, .kInline, .kInt, .kLong,
    .kMutable, .kNamespace, .kNew, .kNoexcept, .kNullptr, .kOperator, .kOverride, .kPrivate,
    .kProtected, .kPublic, .kRegister, .kReinterpretCast, .kReturn, .kShort, .kSigned, .kSizeof,
    .kStatic, .kStaticAssert, .kStaticCast, .kStruct, .kSwitch, .kTemplate, .kThis, .kThreadLocal,
    .kThrow, .kTrue, .kTry, .kTypedef, .kTypeid, .kTypename, .kUnion, .kUnsigned, .kUsing,
    .kVirtual, .kVoid, .kVolatile, .kWcharT, .kWhile]

/-- The spelling of a word. -/
def text : Keyword → String
  | .kAlignas => "alignas"
  | .kAlignof => "alignof"
  | .kAsm => "asm"
  | .kAuto => "auto"
  | .kBool => "bool"
  | .kBreak => "break"
  | .kCase => "case"
  | .kCatch => "catch"
  | .kChar => "char"
  | .kChar16T => "char16_t"
  | .kChar32T => "char32_t"
  | .kClass => "class"
  | .kConst => "const"
  | .kConstexpr => "constexpr"
  | .kConstCast => "const_cast"
  | .kContinue => "continue"
  | .kDecltype => "decltype"
  | .kDefault => "default"
  | .kDelete => "delete"
  | .kDo => "do"
  | .kDouble => "double"
  | .kDynamicCast => "dynamic_cast"
  | .kElse => "else"
  | .kEnum => "enum"
  | .kExplicit => "explicit"
  | .kExport => "export"
  | .kExtern => "extern"
  | .kFalse => "false"
  | .kFinal => "final"
  | .kFloat => "float"
  | .kFor => "for"
  | .kFriend => "friend"
  | .kGcnew => "gcnew"
  | .kGoto => "goto"
  | .kIf => "if"
  | .kInline => "inline"
  | .kInt => "int"
  | .kLong => "long"
  | .kMutable => "mutable"
  | .kNamespace => "namespace"
  | .kNew => "new"
  | .kNoexcept => "noexcept"
  | .kNullptr => "nullptr"
  | .kOperator => "operator"
  | .kOverride => "override"
  | .kPrivate => "private"
  | .kProtected => "protected"
  | .kPublic => "public"
  | .kRegister => "register"
  | .kReinterpretCast => "reinterpret_cast"
  | .kReturn => "return"
  | .kShort => "short"
  | .kSigned => "signed"
  | .kSizeof => "sizeof"
  | .kStatic => "static"
  | .kStaticAssert => "static_assert"
  | .kStaticCast => "static_cast"
  | .kStruct => "struct"
  | .kSwitch => "switch"
  | .kTemplate => "template"
  | .kThis => "this"
  | .kThreadLocal => "thread_local"
  | .kThrow => "throw"
  | .kTrue => "true"
  | .kTry => "try"
  | .kTypedef => "typedef"
  | .kTypeid => "typeid"
  | .kTypename => "typename"
  | .kUnion => "union"
  | .kUnsigned => "unsigned"
  | .kUsing => "using"
  | .kVirtual => "virtual"
  | .kVoid => "void"
  | .kVolatile => "volatile"
  | .kWcharT => "wchar_t"
  | .kWhile => "while"

/-- The registered name of a word. -/
def name : Keyword → String
  | .kAlignas => "Alignas"
  | .kAlignof => "Alignof"
  | .kAsm => "Asm"
  | .kAuto => "Auto"
  | .kBool => "Bool"
  | .kBreak => "Break"
  | .kCase => "Case"
  | .kCatch => "Catch"
  | .kChar => "Char"
  | .kChar16T => "Char16T"
  | .kChar32T => "Char32T"
  | .kClass => "Class"
  | .kConst => "Const"
  | .kConstexpr => "Constexpr"
  | .kConstCast => "ConstCast"
  | .kContinue => "Continue"
  | .kDecltype => "Decltype"
  | .kDefault => "Default"
  | .kDelete => "Delete"
  | .kDo => "Do"
  | .kDouble => "Double"
  | .kDynamicCast => "DynamicCast"
  | .kElse => "Else"
  | .kEnum => "Enum"
  | .kExplicit => "Explicit"
  | .kExport => "Export"
  | .kExtern => "Extern"
  | .kFalse => "False"
  | .kFinal => "Final"
  | .kFloat => "Float"
  | .kFor => "For"
  | .kFriend => "Friend"
  | .kGcnew => "Gcnew"
  | .kGoto => "Goto"
  | .kIf => "If"
  | .kInline => "Inline"
  | .kInt => "Int"
  | .kLong => "Long"
  | .kMutable => "Mutable"
  | .kNamespace => "Namespace"
  | .kNew => "New"
  | .kNoexcept => "Noexcept"
  | .kNullptr => "Nullptr"
  | .kOperator => "Operator"
  | .kOverride => "Override"
  | .kPrivate => "Private"
  | .kProtected => "Protected"
  | .kPublic => "Public"
  | .kRegister => "Register"
  | .kReinterpretCast => "ReinterpretCast"
  | .kReturn => "Return"
  | .kShort => "Short"
  | .kSigned => "Signed"
  | .kSizeof => "Sizeof"
  | .kStatic => "Static"
  | .kStaticAssert => "StaticAssert"
  | .kStaticCast => "StaticCast"
  | .kStruct => "Struct"
  | .kSwitch => "Switch"
  | .kTemplate => "Template"
  | .kThis => "This"
  | .kThreadLocal => "ThreadLocal"
  | .kThrow => "Throw"
  | .kTrue => "True"
  | .kTry => "Try"
  | .kTypedef => "Typedef"
  | .kTypeid => "Typeid"
  | .kTypename => "Typename"
  | .kUnion => "Union"
  | .kUnsigned => "Unsigned"
  | .kUsing => "Using"
  | .kVirtual => "Virtual"
  | .kVoid => "Void"
  | .kVolatile => "Volatile"
  | .kWcharT => "WcharT"
  | .kWhile => "While"

/-- The word with a spelling. -/
def ofText? (text : String) : Option Keyword :=
  all.find? (·.text == text)

/-- Whether the word is reserved in C as well. -/
def isC : Keyword → Bool
  | .kAuto | .kBreak | .kCase | .kChar | .kConst | .kContinue | .kDefault | .kDo | .kDouble
  | .kElse | .kEnum | .kExtern | .kFloat | .kFor | .kGoto | .kIf | .kInline | .kInt | .kLong
  | .kRegister | .kReturn | .kShort | .kSigned | .kSizeof | .kStatic | .kStruct | .kSwitch
  | .kTypedef | .kUnion | .kUnsigned | .kVoid | .kVolatile | .kWhile => true
  | _ => false

theorem mem_all (k : Keyword) : k ∈ all := by
  cases k <;> decide

theorem ofText?_text (k : Keyword) : ofText? k.text = some k := by
  cases k <;> decide

end Keyword

end PackratCpp
