/-! JSON values as the interchange format uses them, and their indented layout. The members of
an object keep their order, and numbers are integers. -/
namespace EventScript

inductive Json where
  | null
  | bool (value : Bool)
  | number (value : Int)
  | string (value : String)
  | array (items : List Json)
  | object (members : List (String × Json))
  deriving Repr, Inhabited

namespace Json

def stringChar (c : Char) : List Char :=
  match c with
  | '"' => ['\\', '"']
  | '\\' => ['\\', '\\']
  | '\x08' => ['\\', 'b']
  | '\x0c' => ['\\', 'f']
  | '\n' => ['\\', 'n']
  | '\r' => ['\\', 'r']
  | '\t' => ['\\', 't']
  | c =>
      if c.toNat < 0x20 then
        ['\\', 'u', '0', '0', Nat.digitChar (c.toNat / 16), Nat.digitChar (c.toNat % 16)]
      else [c]

def stringText (s : String) : String :=
  "\"" ++ String.ofList (s.toList.flatMap stringChar) ++ "\""

def lineBreak (depth : Nat) : String :=
  "\n" ++ String.ofList (List.replicate (2 * depth) ' ')

mutual

def layout (depth : Nat) : Json → String
  | null => "null"
  | bool true => "true"
  | bool false => "false"
  | number n => toString n
  | string s => stringText s
  | array [] => "[]"
  | array (item :: items) =>
      "[" ++ lineBreak (depth + 1) ++ item.layout (depth + 1) ++ layoutItems (depth + 1) items ++
        lineBreak depth ++ "]"
  | object [] => "\x7b\x7d"
  | object ((name, value) :: members) =>
      "\x7b" ++ lineBreak (depth + 1) ++ stringText name ++ ": " ++ value.layout (depth + 1) ++
        layoutMembers (depth + 1) members ++ lineBreak depth ++ "\x7d"

def layoutItems (depth : Nat) : List Json → String
  | [] => ""
  | item :: items => "," ++ lineBreak depth ++ item.layout depth ++ layoutItems depth items

def layoutMembers (depth : Nat) : List (String × Json) → String
  | [] => ""
  | (name, value) :: members =>
      "," ++ lineBreak depth ++ stringText name ++ ": " ++ value.layout depth ++
        layoutMembers depth members

end

mutual

/-- Adds the layout of a value to the end of a text, one piece at a time. -/
def layoutOnto (out : String) (depth : Nat) : Json → String
  | null => out ++ "null"
  | bool true => out ++ "true"
  | bool false => out ++ "false"
  | number n => out ++ toString n
  | string s => out ++ stringText s
  | array [] => out ++ "[]"
  | array (item :: items) =>
      let out := item.layoutOnto (out ++ "[" ++ lineBreak (depth + 1)) (depth + 1)
      layoutItemsOnto out (depth + 1) items ++ lineBreak depth ++ "]"
  | object [] => out ++ "\x7b\x7d"
  | object ((name, value) :: members) =>
      let out := value.layoutOnto
        (out ++ "\x7b" ++ lineBreak (depth + 1) ++ stringText name ++ ": ") (depth + 1)
      layoutMembersOnto out (depth + 1) members ++ lineBreak depth ++ "\x7d"

def layoutItemsOnto (out : String) (depth : Nat) : List Json → String
  | [] => out
  | item :: items =>
      layoutItemsOnto (item.layoutOnto (out ++ "," ++ lineBreak depth) depth) depth items

def layoutMembersOnto (out : String) (depth : Nat) : List (String × Json) → String
  | [] => out
  | (name, value) :: members =>
      layoutMembersOnto
        (value.layoutOnto (out ++ "," ++ lineBreak depth ++ stringText name ++ ": ") depth) depth
        members

end

mutual

theorem layoutOnto_eq (out : String) (depth : Nat) :
    (json : Json) → json.layoutOnto out depth = out ++ json.layout depth
  | null | bool true | bool false | number _ | string _ | array [] | object [] => by
      simp [layoutOnto, layout]
  | array (item :: items) => by
      simp [layoutOnto, layout, layoutOnto_eq _ _ item, layoutItemsOnto_eq _ _ items,
        String.append_assoc]
  | object ((name, value) :: members) => by
      simp [layoutOnto, layout, layoutOnto_eq _ _ value, layoutMembersOnto_eq _ _ members,
        String.append_assoc]

theorem layoutItemsOnto_eq (out : String) (depth : Nat) :
    (items : List Json) → layoutItemsOnto out depth items = out ++ layoutItems depth items
  | [] => by simp [layoutItemsOnto, layoutItems]
  | item :: items => by
      simp [layoutItemsOnto, layoutItems, layoutOnto_eq _ _ item, layoutItemsOnto_eq _ _ items,
        String.append_assoc]

theorem layoutMembersOnto_eq (out : String) (depth : Nat) :
    (members : List (String × Json)) →
      layoutMembersOnto out depth members = out ++ layoutMembers depth members
  | [] => by simp [layoutMembersOnto, layoutMembers]
  | (name, value) :: members => by
      simp [layoutMembersOnto, layoutMembers, layoutOnto_eq _ _ value,
        layoutMembersOnto_eq _ _ members, String.append_assoc]

end

def text (json : Json) : String :=
  json.layoutOnto "" 0

theorem text_eq (json : Json) : json.text = json.layout 0 := by
  simp [text, layoutOnto_eq]

end Json

end EventScript
