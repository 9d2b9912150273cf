/-
Architectural layers.

A symbol gets its layer from the first of these that has an answer: the longest configured prefix
of its file, the ending of its name, the name of a directory around its file; then the same for
each of its ancestors, nearest first.
-/
import Plumbline.Config.Basic
import Plumbline.Text.Span

namespace Plumbline

/-- A base class: its name, and the file that defines it if that is known. -/
structure Ancestor where
  name : String
  path : Option Path := none
deriving Repr, DecidableEq, Inhabited

/-- A named part of an architecture. -/
structure Layer where
  name : String
deriving Repr, DecidableEq, Inhabited

namespace Layer

/-- The one form that path prefixes (`app/core/`) and module prefixes (`app.core`) share. -/
def normalizePrefix (entry : List Char) : List Char :=
  let text := Text.trim entry
  let text := Text.dropPrefixes ['.', '/'] text.length text
  let text := (Text.stripSuffix? ['.', 'p', 'y'] text).getD text
  let form :=
    if text.contains '/' || text.contains '\\' then Text.replaceChar '\\' '/' text
    else Text.replaceChar '.' '/' text
  Text.dropEndWhile (· == '/') form

/-- A path with slashes only, and without `./` in front. -/
def pathForm (path : Path) : List Char :=
  let text := Text.replaceChar '\\' '/' path.toList
  Text.dropPrefixes ['.', '/'] text.length text

/-- A path without the ending of source files. -/
def moduleForm (path : List Char) : List Char :=
  (Text.stripSuffix? ['.', 'p', 'y'] path).getD path

/-- Does the prefix end at a segment of the path? -/
def covers (entry path : List Char) : Bool :=
  path == entry || (entry ++ ['/']).isPrefixOf path

end Layer

/-- Decides which layer symbols and files belong to. -/
structure LayerClassifier where
  config : ProjectConfig
  /-- Normalized prefixes, longest first. -/
  prefixes : List (List Char × Layer)

namespace LayerClassifier

/-- The configured prefixes in normal form, without empty ones. -/
def normalPrefixes (paths : List (String × String)) : List (List Char × Layer) :=
  (paths.map fun (entry, layer) => (Layer.normalizePrefix entry.toList, Layer.mk layer)).filter
    (!·.1.isEmpty)

/-- Longest first; among prefixes of one length the order stays. -/
def ofConfig (config : ProjectConfig) : LayerClassifier :=
  { config
    prefixes := (normalPrefixes config.layers.paths).mergeSort
      fun a b => byteSize b.1 ≤ byteSize a.1 }

def byPrefix? (c : LayerClassifier) (path : List Char) : Option Layer :=
  (c.prefixes.find? fun e => Layer.covers e.1 (Layer.moduleForm path)).map (·.2)

def bySuffix? (c : LayerClassifier) (symbol : String) : Option Layer :=
  (c.config.layers.suffixes.find? fun s =>
    !s.suffix.isEmpty && s.suffix.toList.isSuffixOf symbol.toList).map (⟨·.layer⟩)

def byDirectory? (c : LayerClassifier) (path : List Char) : Option Layer :=
  let parts := Text.split '/' (Layer.moduleForm path)
  (c.config.layers.directories.find? fun d => parts.contains d.name.toList).map (⟨·.layer⟩)

/-- The layer of a symbol by itself. -/
def direct? (c : LayerClassifier) (symbol : String) (path : Option Path) : Option Layer :=
  let path := path.map Layer.pathForm
  (path.bind c.byPrefix?).or ((c.bySuffix? symbol).or (path.bind c.byDirectory?))

/-- The layer of a symbol of the file `path`, by itself or by one of its ancestors. -/
def resolve? (c : LayerClassifier) (symbol : String) (path : Path) (chain : List Ancestor) :
    Option Layer :=
  (c.direct? symbol (some path)).or (chain.findSome? fun a => c.direct? a.name a.path)

/-- The layer of a file. -/
def ofPath? (c : LayerClassifier) (path : Path) : Option Layer :=
  let path := Layer.pathForm path
  (c.byPrefix? path).or (c.byDirectory? path)

/-- The layer of a module given by its dotted name. -/
def ofModule? (c : LayerClassifier) (dotted : String) : Option Layer :=
  c.ofPath? (String.ofList (Text.replaceChar '.' '/' dotted.toList))

/-- The place in the configured order, innermost first. -/
def rank? (c : LayerClassifier) (layer : Layer) : Option Nat :=
  c.config.layers.order.idxOf? layer.name

def isImmutable (c : LayerClassifier) (layer : Layer) : Bool := c.config.isImmutable layer.name

end LayerClassifier

end Plumbline
