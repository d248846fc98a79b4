import CryptoSuite.Suite.Config
import CryptoSuite.Proofs.Json.Number

/-! The documents that stand for a configuration. Each field is given a value at most once, by its name in an
object or by its place in a list, and what is not given is the default. -/
namespace CryptoSuite.Config

open Json Json.Reader

/-- One field with its value. A suite is either a name or an object that maps its name to nothing. -/
inductive Member
  | suite (s : SuiteId) (keyed : Bool)
  | block (m : RoundMultiplier)
  | stream (m : RoundMultiplier)
  deriving DecidableEq, Repr

namespace Member

def field : Member → Field
  | suite _ _ => .suite
  | block _ => .block
  | stream _ => .stream

def Holds (c : Config) : Member → Prop
  | suite s _ => c.suite = s
  | block m => c.block = m
  | stream m => c.stream = m

def set (c : Config) : Member → Config
  | suite s _ => { c with suite := s }
  | block m => { c with block := m }
  | stream m => { c with stream := m }

def value : Member → List Token
  | suite s keyed => nameTokens s.name keyed
  | block m => [.natural m.factor]
  | stream m => [.natural m.factor]

def named (x : Member) : List Token := .string x.field.name :: .mark .colon :: x.value

end Member

def separator : (first : Bool) → List Token
  | true => []
  | false => [.mark .comma]

/-- Pieces with a comma in front of each but the first. -/
def row (first : Bool) : List (List Token) → List Token
  | [] => []
  | piece :: pieces => separator first ++ (piece ++ row false pieces)

/-- An object has its members in any order and none twice, a list the values of the first few fields. -/
inductive Document
  | object (members : List Member) (distinct : (members.map Member.field).Nodup)
  | list (members : List Member) (order : members.map Member.field <+: Field.all)

namespace Document

def members : Document → List Member
  | object members _ => members
  | list members _ => members

def tokens : Document → List Token
  | object members _ => .mark .openObject :: (row true (members.map Member.named) ++ [.mark .closeObject])
  | list members _ => .mark .openList :: (row true (members.map Member.value) ++ [.mark .closeList])

/-- The text is the document up to the space around tokens and the spelling of strings. -/
def Written (d : Document) (text : String) : Prop := Consists text.toList d.tokens

end Document

/-- The two configurations have the same value for the field. -/
def Field.Agrees (c c' : Config) : Field → Prop
  | suite => c.suite = c'.suite
  | block => c.block = c'.block
  | stream => c.stream = c'.stream

theorem nodup_fields : Field.all.Nodup := by decide

theorem Document.distinct : (d : Document) → (d.members.map Member.field).Nodup
  | object _ distinct => distinct
  | list _ order => order.sublist.nodup nodup_fields

theorem Field.Agrees.trans {f : Field} {c c' c'' : Config} (h : f.Agrees c c') (h' : f.Agrees c' c'') :
    f.Agrees c c'' := by
  cases f <;> exact Eq.trans h h'

namespace Selects

variable {members others : List Member} {c c' : Config}

end Selects

end CryptoSuite.Config
