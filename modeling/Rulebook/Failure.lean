import Rulebook.Json.Text
import Rulebook.Shape

/-!
# Failures

What can go wrong, by cause. Each cause has one wording, in one place; whoever reports a failure
adds where it arose.
-/
namespace Rulebook

/-- A field path that cannot be read, or that does not fit a shape. -/
inductive PathFault where
  | emptySegment (position : Nat)
  | strayMark (segment : String)
  | noFields (shape : Shape) (field : String)
  | undeclared (field : String)
  | notCollection (field : String) (shape : Shape)

def PathFault.message : PathFault → String
  | emptySegment position => s!"路径第 {position} 段为空"
  | strayMark segment => s!"路径段 '{segment}' 的集合标记无效"
  | noFields shape field => s!"类型 {shape.label} 上不存在字段 '{field}'"
  | undeclared field => s!"字段 '{field}' 未声明"
  | notCollection field shape =>
    s!"字段 '{field}' 的类型 {shape.label} 不是集合，不能使用 [*]"

inductive Arity where
  | exactly (count : Nat)
  | atLeast (count : Nat)
deriving DecidableEq

namespace Arity

def accepts : Arity → Nat → Bool
  | exactly n, count => count = n
  | atLeast n, count => n ≤ count

def label : Arity → String
  | exactly n => toString n
  | atLeast n => s!"至少 {n}"

end Arity

inductive Side where
  | left
  | right
deriving DecidableEq

def Side.label : Side → String
  | left => "左"
  | right => "右"

/-- Operands that an operator does not take. -/
inductive OperandFault where
  | count (operator : String) (arity : Arity) (given : Nat)
  | notBoolean (operator : String) (position : Nat) (shape : Shape)
  | incomparable (operator : String) (left right : Shape)
  | notText (side : Side) (shape : Shape)
  | notCollection (operator : String) (shape : Shape)
  | badPattern (source : String) (text : String)
  | other (text : String)

def OperandFault.message : OperandFault → String
  | count operator arity given => s!"操作符 {operator} 需要 {arity.label} 个操作数，实际 {given} 个"
  | notBoolean operator position shape =>
    s!"操作符 {operator} 的第 {position} 个操作数必须是布尔值，实际为 {shape.label}"
  | incomparable operator left right => s!"操作符 {operator} 不能比较 {left.label} 和 {right.label}"
  | notText side shape => s!"操作符 match 的{side.label}操作数必须是字符串，实际为 {shape.label}"
  | notCollection operator shape =>
    s!"操作符 {operator} 的左操作数必须是集合，实际为 {shape.label}"
  | badPattern source text => s!"无效的正则表达式 '{source}': {text}"
  | other text => text

/-- An expression that does not fit the place where it stands. -/
inductive ExpressionFault where
  | notTruth (value : Json)
  | listAsPredicate
  | functionAsPredicate (function : String) (returns : Kind)
  | shapeAsPredicate (shape : Shape)
  | constant (declared : Kind) (value : Json)
  | parameterTwice (parameter : String)
  | operands (fault : OperandFault)

def ExpressionFault.message : ExpressionFault → String
  | notTruth value => s!"谓词常量必须是布尔值，实际为 {value.text}"
  | listAsPredicate => "值列表不能作为谓词"
  | functionAsPredicate function returns =>
    s!"函数 {function} 的返回类型为 {returns.label}，不能作为谓词"
  | shapeAsPredicate shape => s!"类型为 {shape.label} 的表达式不能作为谓词"
  | constant declared value => s!"常量声明为 {declared.label}，值为 {value.text}"
  | parameterTwice parameter => s!"参数 '{parameter}' 重复"
  | operands fault => fault.message

/-- A fact name that stands for another type already. -/
structure NameClash where
  name : String
  held : String
  asked : String
deriving DecidableEq

def NameClash.message (clash : NameClash) : String :=
  s!"事实名 '{clash.name}' 已声明为类型 {clash.held}，不能再声明为 {clash.asked}"

/-- What is wrong with a rule. -/
inductive RuleFault where
  | attributeTwice (name : String)
  | attributeValue (name : String) (declared : Kind) (value : Json)
  | factTwice (name : String)
  | nameClash (clash : NameClash)
  | unreadableDate (name : String) (text : String)
  | notADate (name : String) (value : Json)
  | expression (place : String) (fault : ExpressionFault)

def RuleFault.message : RuleFault → String
  | attributeTwice name => s!"属性 '{name}' 重复声明"
  | attributeValue name declared value =>
    s!"属性 '{name}' 声明为 {declared.label}，值为 {value.text}"
  | factTwice name => s!"事实名 '{name}' 重复声明"
  | nameClash clash => clash.message
  | unreadableDate name text => s!"属性 {name} 无法解析为日期时间: '{text}'"
  | notADate name value => s!"属性 {name} 必须是日期时间字符串，实际为 {value.text}"
  | expression place fault => s!"{place}: {fault.message}"

inductive ReferenceFault where
  | undeclaredName
  | path (fault : PathFault)
  | notTruth (shape : Shape)

def ReferenceFault.message : ReferenceFault → String
  | undeclaredName => "未声明的名称"
  | path fault => fault.message
  | notTruth shape => s!"类型为 {shape.label}，不能作为谓词"

/-- What an evaluation would have needed. -/
inductive Expected where
  | truth
  | text
  | pattern
  | array
  | arrayIn (field : String)
  | comparableWith (typeName : String)
deriving DecidableEq

def Expected.label : Expected → String
  | truth => "boolean"
  | text => "string"
  | pattern => "string (regex pattern)"
  | array => "array"
  | arrayIn field => s!"array (字段 '{field}')"
  | comparableWith typeName => typeName

inductive StoreFault where
  | missing
  | badUri (uri : String)
  | other (text : String)

def StoreFault.message : StoreFault → String
  | missing => "未配置规则仓库"
  | badUri uri => s!"无效的规则集 URI: '{uri}'"
  | other text => text

inductive Failure where
  | rule (id : String) (fault : RuleFault)
  | reference (id : String) (text : String) (fault : ReferenceFault)
  | unknownOperator (id : String) (name : String)
  | unknownFunction (id : String) (name : String)
  | unknownAction (id : String) (name : String)
  | noRuleset (uri : String)
  | store (fault : StoreFault)
  | mismatch (expected : Expected) (actual : String)
  | call (name : String) (text : String)
  | badPattern (text : String)
  | emptyGroup (name : String)
  | settings
  | json

namespace Failure

def message : Failure → String
  | rule id fault => s!"规则编译失败 [{id}]: {fault.message}"
  | reference id text fault => s!"无效的引用 [{id}] '{text}': {fault.message}"
  | unknownOperator id name => s!"未注册的操作符 [{id}]: {name}"
  | unknownFunction id name => s!"未注册的函数 [{id}]: {name}"
  | unknownAction id name => s!"未注册的动作 [{id}]: {name}"
  | noRuleset uri => s!"规则集不存在: {uri}"
  | store fault => s!"规则仓库错误: {fault.message}"
  | mismatch expected actual => s!"类型不匹配: 期望 {expected.label}, 实际 {actual}"
  | call name text => s!"调用失败 {name}: {text}"
  | badPattern text => s!"调用失败 match: {text}"
  | emptyGroup name => s!"事实分组为空: {name}"
  | settings => "配置错误"
  | json => "JSON 序列化错误"

/-- Whether the failure tells that a rule does not compile. -/
def isOfRule : Failure → Bool
  | rule .. | reference .. | unknownOperator .. | unknownFunction .. | unknownAction .. => true
  | _ => false

end Failure
end Rulebook
