import Prodinamik.Lib.Json
import Prodinamik.Lib.Regex
import Prodinamik.Lib.Text

namespace Prodinamik.Agents

open Lib Lib.Json Lib.Regex Lib.Text

/-- What an exception is raised on. -/
inductive Raised (F : Type)
  | noAttribute (v : Value F)
  | notSliceable (v : Value F)
  | notJoined

/-- How Python tests and shows values where that is left open here. -/
structure Host (fl : Floats) where
  nonzero : fl.Num → Bool
  str : Value fl.Num → List Char
  message : Raised fl.Num → List Char

def plainHost : Host .single where
  nonzero _ := false
  str _ := []
  message _ := []

variable {fl : Floats} (host : Host fl)

namespace Host

def truthy : Value fl.Num → Bool
  | .null => false
  | .bool b => b
  | .int n => n ≠ 0
  | .float x => host.nonzero x
  | .str s => s ≠ ""
  | .arr vs => !vs.isEmpty
  | .obj ms => !ms.isEmpty

end Host

/-- ```` ```(?:json)?\s*\n({.*?})\n\s*``` ```` where a dot is any character. -/
def fence : Re :=
  .seq (.lit "```".toList) <| .seq (.opt (.lit "json".toList)) <| .seq (.many true isSpace) <|
    .seq (.lit ['\n']) <|
    .seq (.group (.seq (.lit ['{']) (.seq (.many false fun _ => true) (.lit ['}'])))) <|
    .seq (.lit ['\n']) <| .seq (.many true isSpace) (.lit "```".toList)

def notBrace (c : Char) : Bool := c ≠ '{' && c ≠ '}'

/-- `\{[^{}]*"action"[^{}]*\}` -/
def flat : Re :=
  .seq (.lit ['{']) <| .seq (.many true notBrace) <| .seq (.lit "\"action\"".toList) <|
    .seq (.many true notBrace) (.lit ['}'])

/-- The action in a text that one of the patterns has caught. It begins with a
brace, so that it is read as an object or not at all. -/
def actionIn (text : List Char) : Option (Value fl.Num) :=
  match loads fl text with
  | some (.obj data) =>
      let action := (data.lookup "action").getD (.obj [])
      if host.truthy action then some action else none
  | _ => none

/-- The action that _parse_action finds in a response. -/
def findAction (content : List Char) : Option (Value fl.Num) :=
  (((search fence content).bind Way.caught).bind (actionIn host)).or
    ((search flat content).bind fun m => actionIn host m.text)

/-- A response without an action is treated as complete. -/
def assumed (content : List Char) : Value fl.Num :=
  .obj [("type", .str "complete"), ("summary", .str (String.ofList (content.take 200))),
    ("output", .obj [("raw_response", .str (String.ofList (content.take 500)))])]

def parseAction (content : List Char) : Value fl.Num := (findAction host content).getD (assumed content)

end Prodinamik.Agents
