import CalendarCommand.Http.Body
import CalendarCommand.Proofs.Json.RoundTrip

/-!
# Requests and responses, read back

A body is decoded while it is read, and not by way of the value that it holds.  Still a body that holds
the value of a request is decoded to the request, in whatever way it is spaced and its texts are escaped.
A response is decoded to itself from its value, and its value is read back from its lines.
-/

namespace CalendarCommand

namespace Json

variable {reading : Reading} {text rest : List Char} {name : String}

theorem readName?_inversion (h : readName? reading text = some (name, rest)) :
    ∃ named behind, skipSpace text = '"' :: named ∧
      readText? reading named = some (name, behind) ∧ skipSpace behind = ':' :: rest := by
  rw [readName?] at h
  split at h
  · rename_i htext
    obtain ⟨⟨found, behind⟩, hfound, hcolon⟩ := Option.bind_eq_some_iff.1 h
    split at hcolon
    · rename_i hbehind
      obtain ⟨rfl, rfl⟩ := Prod.mk.inj (Option.some.inj hcolon)
      exact ⟨_, behind, htext, hfound, hbehind⟩
    · cases hcolon
  · cases h

theorem exists_read_of_ofText? {value : Json} (h : ofText? text = some value) :
    ∃ rest, readValue? .complete [] text = some (value, rest) ∧ skipSpace rest = [] := by
  rw [ofText?] at h
  split at h
  · rename_i found rest hread
    split_ifs at h with hend
    obtain rfl := Option.some.inj h
    exact ⟨rest, hread, List.isEmpty_iff.1 hend⟩
  · cases h

end Json

namespace ManagementRequest

variable {text rest : List Char} {value : String}

theorem readField_of_quoted {quoted : List Char} (htext : Json.skipSpace text = '"' :: quoted)
    (hread : Json.readText? .complete quoted = some (value, rest)) :
    readField text = .ok (value, rest) := by
  rw [readField]
  simp only [htext, hread]

theorem readMember_of_colon {named : List Char} (htext : Json.skipSpace text = ':' :: named)
    (hread : readField named = .ok (value, rest)) :
    readMember none fieldName text = .ok (some value, rest) := by
  rw [readMember, if_pos rfl]
  simp only [htext, hread]
  rfl

theorem readMembers_of_member {named behind valued : List Char}
    (htext : Json.skipSpace text = '"' :: named)
    (hname : Json.readText? .complete named = some (fieldName, behind))
    (hmember : readMember none fieldName behind = .ok (some value, valued))
    (hclose : Json.skipSpace valued = '\x7d' :: rest) :
    readMembers none text = .ok (value, rest) := by
  rw [readMembers]
  simp only [htext, hname, hmember, hclose]

/-- A body that holds the value of a request is decoded to the request. -/
theorem ofBody_of_ofText? {body : String} {request : ManagementRequest}
    (h : Json.ofText? body.toList = some request.toJson) : ofBody body = .ok request := by
  -- The value fixes what the body is made of, up to blank space and escapes; the decoder then meets
  -- the same parts in the same order.
  obtain ⟨rest, hvalue, hend⟩ := Json.exists_read_of_ofText? h
  obtain ⟨opened, named, valued, hopen, hname, hheld, hclose⟩ := Json.braced_of_readValue? hvalue
  obtain ⟨first, behind, hquote, hfield, hcolon⟩ := Json.readName?_inversion hname
  obtain ⟨quoted, htext, hread⟩ := Json.quoted_of_readValue? hheld
  have hmember := readMember_of_colon hcolon (readField_of_quoted htext hread)
  have hrequest : readRequest body.toList = .ok (request.text, rest) := by
    rw [readRequest]
    simp only [hopen, hquote]
    exact readMembers_of_member hquote hfield hmember hclose
  rw [ofBody, hrequest]
  simp only [hend]
  rfl

/-- The lines that a request is written in are a body that holds it. -/
theorem ofText?_toJson (request : ManagementRequest) :
    Json.ofText? request.toJson.pretty.toList = some request.toJson := by
  have hfree : request.toJson.NumberFree := by
    refine .object fun member hmember ↦ ?_
    obtain rfl := List.mem_singleton.1 hmember
    exact .string _
  have hblank : ∀ c ∈ ([] : List Char), Json.isSpace c = true := nofun
  have h := Json.ofText?_pretty hfree hblank
  rwa [List.append_nil] at h

end ManagementRequest

namespace ManagementResponse

theorem numberFree_textMember {name : String} (text : Option String) :
    ∀ member ∈ Json.textMember name text, member.2.NumberFree := by
  intro member hmember
  cases text with
  | none => cases hmember
  | some text =>
    obtain rfl := List.mem_singleton.1 hmember
    exact .string text

theorem numberFree_toJson (response : ManagementResponse) : response.toJson.NumberFree := by
  cases response with
  | notCommand =>
    refine .object fun member hmember ↦ ?_
    obtain rfl := List.mem_singleton.1 hmember
    exact .string _
  | applied command narrative status text =>
    refine .object ?_
    simp only [List.forall_mem_append, List.forall_mem_cons]
    exact ⟨⟨⟨⟨.string _, .string _, nofun⟩, numberFree_textMember narrative⟩, .string _, nofun⟩,
      numberFree_textMember text⟩

/-- A response is decoded from its value. -/
theorem ofJson?_toJson (response : ManagementResponse) : ofJson? response.toJson = some response := by
  cases response with
  | notCommand => rfl
  | applied command narrative status text =>
    cases narrative <;> cases text <;> cases status <;> rfl

end ManagementResponse

end CalendarCommand
