/-
# XML elements

The tree that `xml.etree.ElementTree` makes of a document, and the searches in
it: `iter` goes through an element and all below it in document order, and a
path of `findall` is made of steps to children (`named`) and to descendants
(`below`).
-/
import MqResiliency.Lib.Dict
import MqResiliency.Lib.Text

namespace MqResiliency
namespace Xml

open Py

/-- An element: its tag, its attributes and what is in it. -/
inductive Element : Type where
  | mk (tag : Str) (attrib : Dict Str Str) (children : List Element)

namespace Element

def tag : Element → Str
  | mk tag _ _ => tag

def attrib : Element → Dict Str Str
  | mk _ attrib _ => attrib

def children : Element → List Element
  | mk _ _ children => children

mutual

/-- `e.iter()`. -/
def iter : Element → List Element
  | mk tag attrib children => mk tag attrib children :: iterAll children

/-- The elements of a list and all below them. -/
def iterAll : List Element → List Element
  | [] => []
  | e :: es => e.iter ++ iterAll es

end

/-- `e.get(key)`. -/
def get (e : Element) (key : Str) : Option Str := e.attrib.get? key

/-- `e.get(key, default)`. -/
def getD (e : Element) (key : Str) (default : Str) : Str := (e.get key).getD default

/-- The step `/tag` of a path. -/
def named (e : Element) (tag : Str) : List Element := e.children.filter fun c => c.tag = tag

/-- The step `//tag` of a path. -/
def beneath (e : Element) (tag : Str) : List Element := (iterAll e.children).filter fun c => c.tag = tag

end Element
end Xml
end MqResiliency
