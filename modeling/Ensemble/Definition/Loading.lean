import Ensemble.Definition.Notation
import Ensemble.Json.Reader
import Ensemble.Text.Characters
import Ensemble.Text.Utf8
import Ensemble.Yaml.Reading

/-!
# Loading definitions

A definition is loaded from a text, or from the bytes of a file, which must be UTF-8.
-/

namespace Ensemble

inductive Format
  | json
  | yaml
deriving DecidableEq, Repr

def Format.name : Format → String
  | .json => "JSON"
  | .yaml => "YAML"

inductive LoadError
  | parse (format : Format)
  | file (format : Format) (path : String)
deriving DecidableEq, Repr

def LoadError.message : LoadError → String
  | .parse format => s!"Failed to parse {format.name} content"
  | .file format path => s!"Failed to read {format.name} file: {Text.quotePath path}"

namespace MasterAgent

def ofText? (format : Format) (text : String) : Option MasterAgent :=
  match format with
  | .json => (Document.parse? text.toList).bind MasterAgent.read?
  | .yaml => (Yaml.Node.read? text).bind MasterAgent.read?

def load (format : Format) (text : String) : Except LoadError MasterAgent :=
  match ofText? format text with
  | some m => .ok m
  | none => .error (.parse format)

/-- Loads the file of a path, of which the bytes are given if it is there. -/
def loadFile (format : Format) (path : String) (bytes : Option (List UInt8)) :
    Except LoadError MasterAgent :=
  match bytes.map Text.decode with
  | some (.ok cs) => load format (String.ofList cs)
  | _ => .error (.file format path)

end MasterAgent

end Ensemble
