import Keel.Syntax
import Keel.Token

namespace Keel

def tightSymbols : List String := ["+", "-", "*", "/"]

def joiningSymbols : List String := "=" :: comparisonSymbols ++ tightSymbols

def separatorSymbols : List String := ["&&", "||"]

namespace Grammar

inductive Nonterminal where
  | nodes | node
  | prototype | parameterList | parameters
  | expression | primary
  | chain (symbols : List String)
  | argumentList | arguments
  | conditional | conditions | condition | operand

def Ends (symbols : List String) (ks : List TokenKind) : Prop :=
  ∀ op ∈ symbols, ks.head? ≠ some (.operator op)

open TokenKind Nonterminal in
/-- What is to come, when read as the nonterminal, leaves the second list still to come. -/
inductive Produces : Nonterminal → List TokenKind → List TokenKind → Prop
  | noNodes {ks} : Produces nodes ks ks
  | moreNodes {ks ls ms} : Produces node ks ls → Produces nodes ls ms → Produces nodes ks ms
  | hostFunction {ks ls} : Produces prototype ks (punctuation ";" :: ls) →
      Produces node (keyword "fn" :: ks) ls
  | function {ks ls ms} : Produces prototype ks (punctuation "\x7b" :: ls) →
      Produces nodes ls (punctuation "\x7d" :: ms) → Produces node (keyword "fn" :: ks) ms
  | ret {ks ls} : Produces expression ks (punctuation ";" :: ls) → Produces node (keyword "return" :: ks) ls
  | ifNode {ks ls} : Produces conditional (keyword "if" :: ks) ls → Produces node (keyword "if" :: ks) ls
  | declaration {type name ks ls} : Produces expression ks (punctuation ";" :: ls) →
      Produces node (typeKeyword type :: identifier name :: operator "=" :: ks) ls
  | expressionNode {ks ls} : ks.head? ≠ some (keyword "if") → Produces expression ks (punctuation ";" :: ls) →
      Produces node ks ls
  | prototype {name type ks ls} :
      Produces parameterList ks (punctuation ")" :: punctuation "->" :: typeKeyword type :: ls) →
      Produces prototype (identifier name :: punctuation "(" :: ks) ls
  | noParameters {ks} : Produces parameterList ks ks
  | someParameters {ks ls} : Produces parameters ks ls → Produces parameterList ks ls
  | lastParameter {type name ks} : Produces parameters (typeKeyword type :: identifier name :: ks) ks
  | nextParameter {type name ks ls} : Produces parameters ks ls →
      Produces parameters (typeKeyword type :: identifier name :: punctuation "," :: ks) ls
  | expression {ks ls ms} : Produces primary ks ls → Produces (chain joiningSymbols) ls ms →
      Produces expression ks ms
  | chainEnd {symbols ks} : Ends symbols ks → Produces (chain symbols) ks ks
  | chainNext {symbols op ks ls ms} : op ∈ symbols → Produces primary ks ls → Produces (chain symbols) ls ms →
      Produces (chain symbols) (operator op :: ks) ms
  | int {value ks} : Produces primary (int value :: ks) ks
  | float {value ks} : Produces primary (float value :: ks) ks
  | bool {value ks} : Produces primary (bool value :: ks) ks
  | string {value ks} : Produces primary (string value :: ks) ks
  | reference {name ks} : ks.head? ≠ some (punctuation "(") → ks.head? ≠ some (operator "=") →
      Produces primary (identifier name :: ks) ks
  | call {name ks ls} : Produces argumentList ks (punctuation ")" :: ls) →
      Produces primary (identifier name :: punctuation "(" :: ks) ls
  | assign {name ks ls} : Produces expression ks ls →
      Produces primary (identifier name :: operator "=" :: ks) ls
  | parens {ks ls} : Produces expression ks (punctuation ")" :: ls) → Produces primary (punctuation "(" :: ks) ls
  | cast {type ks ls} : Produces expression ks (punctuation ")" :: ls) →
      Produces primary (typeKeyword type :: punctuation "(" :: ks) ls
  | ifPrimary {ks ls} : Produces conditional ks ls → Produces primary ks ls
  | importFile {path ks} : Produces primary (keyword "import" :: string path :: ks) ks
  | noArguments {ks} : Produces argumentList ks ks
  | someArguments {ks ls} : Produces arguments ks ls → Produces argumentList ks ls
  | lastArgument {ks ls} : Produces expression ks ls → Produces arguments ks ls
  | nextArgument {ks ls ms} : Produces expression ks (punctuation "," :: ls) → Produces arguments ls ms →
      Produces arguments ks ms
  | conditional {ks ls ms} : Produces conditions ks (punctuation ")" :: punctuation "\x7b" :: ls) →
      Produces nodes ls (punctuation "\x7d" :: ms) →
      Produces conditional (keyword "if" :: punctuation "(" :: ks) ms
  | lastCondition {ks ls} : Produces condition ks ls → Produces conditions ks ls
  | nextCondition {op ks ls ms} : op ∈ separatorSymbols → Produces condition ks (operator op :: ls) →
      Produces conditions ls ms → Produces conditions ks ms
  | condition {op ks ls ms} : op ∈ comparisonSymbols → Produces operand ks (operator op :: ls) →
      Produces operand ls ms → Produces condition ks ms
  | operand {ks ls ms} : Produces primary ks ls → Produces (chain tightSymbols) ls ms → Produces operand ks ms

end Grammar

end Keel
