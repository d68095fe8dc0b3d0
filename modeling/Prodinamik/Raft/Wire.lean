import Mathlib
import Prodinamik.Lib.Json
import Prodinamik.Lib.Text

namespace Prodinamik.Raft.Wire

open Lib.Json

variable {fl : Floats}

/-- Python holds none of the fields to its annotation. -/
structure RaftMessage (F : Type) where
  type : Value F
  senderId : Value F
  term : Value F
  data : Value F

inductive Raised
  | jsonDecodeError
  | unicodeDecodeError
  | typeError
  deriving DecidableEq

namespace RaftMessage

def asdict (m : RaftMessage fl.Num) : List (String × Value fl.Num) :=
  [("type", m.type), ("sender_id", m.senderId), ("term", m.term), ("data", m.data)]

def toJson (m : RaftMessage fl.Num) : String := String.ofList (dumps fl (.obj m.asdict))

/-- The message has JSON data. -/
def IsJson (m : RaftMessage fl.Num) : Prop := Ok fl (.obj m.asdict)

/-- cls(**data) -/
def init (data : List (String × Value fl.Num)) : Except Raised (RaftMessage fl.Num) :=
  if ∀ m ∈ data, m.1 ∈ ["type", "sender_id", "term", "data"] then
    match data.lookup "type", data.lookup "sender_id" with
    | some type, some senderId =>
        .ok ⟨type, senderId, (data.lookup "term").getD (.int 0), (data.lookup "data").getD .null⟩
    | _, _ => .error .typeError
  else .error .typeError

def fromJson (raw : List Char) : Except Raised (RaftMessage fl.Num) :=
  match loads fl raw with
  | none => .error .jsonDecodeError
  | some (.obj data) => init data
  | some _ => .error .typeError

/-- The line both sides send. -/
def line (m : RaftMessage fl.Num) : ByteArray := (m.toJson ++ "\n").toByteArray

theorem init_asdict (m : RaftMessage fl.Num) : init m.asdict = .ok m := by
  simp [init, asdict, List.lookup]

theorem fromJson_dumps {m : RaftMessage fl.Num} (h : m.IsJson) :
    fromJson (dumps fl (.obj m.asdict)) = .ok m := by
  rw [fromJson, loads_dumps fl h]
  exact init_asdict m

end RaftMessage

/-- RaftMessage.from_json(data.decode("utf-8").strip()) -/
def received (fl : Floats) (data : ByteArray) : Except Raised (RaftMessage fl.Num) :=
  match String.fromUTF8? data with
  | none => .error .unicodeDecodeError
  | some text => RaftMessage.fromJson (Lib.Text.strip text.toList)

/-- _handle_client with the data of its one recv: the message its handler is
called with, and the bytes it sends back. -/
def handleClient (handler : Option (RaftMessage fl.Num → Option (RaftMessage fl.Num)))
    (data : ByteArray) : Option (RaftMessage fl.Num) × ByteArray :=
  if data = .empty then (none, .empty)
  else
    match received fl data, handler with
    | .ok msg, some h => (some msg, ((h msg).map RaftMessage.line).getD .empty)
    | _, _ => (none, .empty)

/-- What send_message makes of the data of its one recv. A TypeError is not
among the exceptions it catches. -/
def sendMessage (fl : Floats) (data : ByteArray) : Except Raised (Option (RaftMessage fl.Num)) :=
  if data = .empty then .ok none
  else
    match received fl data with
    | .ok msg => .ok (some msg)
    | .error .typeError => .error .typeError
    | .error _ => .ok none

/-- What recv(65536) may return of what is left of a stream: nothing at the end
of it only. -/
structure Recv (left data : ByteArray) : Prop where
  part : ∃ rest, left = data ++ rest
  size : data.size ≤ 65536
  empty : data = .empty → left = .empty

section Lines

variable {m : RaftMessage fl.Num} {data rest : ByteArray}

/-- The text of a message stands between braces. -/
theorem braces (m : RaftMessage fl.Num) :
    ∃ u, dumps fl (.obj m.asdict) = '{' :: (u ++ ['}']) := by
  obtain ⟨u, hu⟩ := listed_last '}' (dumpsMembers fl m.asdict)
  exact ⟨u, by rw [dumps, hu]⟩

theorem strip_braces (u : List Char) {s : List Char} (h : s = [] ∨ s = ['\n']) :
    Lib.Text.strip ('{' :: (u ++ ['}']) ++ s) = '{' :: (u ++ ['}']) := by
  have hnil : s.rdropWhile Lib.Text.isSpace = [] := by
    rcases h with rfl | rfl <;> decide
  have htext : '{' :: (u ++ ['}']) ++ s = ('{' :: u) ++ '}' :: s := by simp
  rw [htext, Lib.Text.strip, Lib.Text.rdropWhile_append_cons (by decide), hnil,
    List.cons_append, List.dropWhile_cons_of_neg (by decide)]

/-- Off the beginning of a text that starts with a brace only the end is stripped. -/
theorem strip_prefix {s u : List Char} (h : s <+: '{' :: u) : Lib.Text.strip s <+: s := by
  have hfront := List.rdropWhile_prefix Lib.Text.isSpace s
  rw [Lib.Text.strip]
  cases hs : s.rdropWhile Lib.Text.isSpace with
  | nil => exact List.nil_prefix
  | cons c v =>
      rw [hs] at hfront
      have hc : c = '{' := (List.cons_prefix_cons.mp (hfront.trans h)).1
      rw [hc, List.dropWhile_cons_of_neg (by decide), ← hc]
      exact hfront

theorem fromUTF8?_toByteArray (s : String) : String.fromUTF8? s.toByteArray = some s := by
  rw [String.fromUTF8?, dif_pos s.isValidUTF8]
  rfl

theorem size_line (m : RaftMessage fl.Num) : m.line.size = m.toJson.utf8ByteSize + 1 := by
  have hnewline : "\n".utf8ByteSize = 1 := by decide
  rw [RaftMessage.line, String.size_toByteArray, String.utf8ByteSize_append, hnewline]

theorem received_whole (hm : m.IsJson) (hdata : m.line = data ++ rest)
    (hsize : m.toJson.utf8ByteSize ≤ data.size) : received fl data = .ok m := by
  have htotal := congrArg ByteArray.size hdata
  rw [size_line, ByteArray.size_append] at htotal
  have hread : ∃ s, (s = [] ∨ s = ['\n']) ∧
      String.fromUTF8? data = some (String.ofList (dumps fl (.obj m.asdict) ++ s)) := by
    rcases Nat.eq_zero_or_pos rest.size with hrest | hrest
    · have hline : data = m.line := by
        rw [hdata, ByteArray.size_eq_zero_iff.mp hrest, ByteArray.append_empty]
      refine ⟨['\n'], Or.inr rfl, ?_⟩
      rw [hline, RaftMessage.line, fromUTF8?_toByteArray, RaftMessage.toJson, String.ofList_append]
    · have htext : data = m.toJson.toByteArray := by
        rw [RaftMessage.line, String.toByteArray_append] at hdata
        refine (ByteArray.append_inj_left hdata ?_).symm
        rw [String.size_toByteArray]
        omega
      refine ⟨[], Or.inl rfl, ?_⟩
      rw [htext, fromUTF8?_toByteArray, RaftMessage.toJson, List.append_nil]
  obtain ⟨s, hs, hread⟩ := hread
  obtain ⟨u, hu⟩ := braces m
  rw [received, hread]
  simp only [String.toList_ofList]
  rw [hu, strip_braces u hs, ← hu]
  exact RaftMessage.fromJson_dumps hm

theorem received_cut (hm : m.IsJson) (hdata : m.line = data ++ rest)
    (hsize : data.size < m.toJson.utf8ByteSize) :
    ∃ e, e ≠ .typeError ∧ received fl data = .error e := by
  rw [received]
  cases hread : String.fromUTF8? data with
  | none => exact ⟨_, by decide, rfl⟩
  | some text =>
      have hbytes : text.toByteArray = data := by
        rw [String.fromUTF8?] at hread
        split at hread
        · rw [← Option.some.inj hread]
          rfl
        · cases hread
      have hstem : text.toList <+: dumps fl (.obj m.asdict) ++ ['\n'] := by
        apply List.isPrefix_of_utf8Encode_append_eq_utf8Encode rest
        rw [String.utf8Encode_toList, hbytes, ← hdata, RaftMessage.line, RaftMessage.toJson,
          List.utf8Encode_append, String.toByteArray_append, String.toByteArray_ofList]
        rfl
      have hwhole : ¬ dumps fl (.obj m.asdict) <+: text.toList := by
        rintro ⟨v, hv⟩
        have htext : text = m.toJson ++ String.ofList v := by
          rw [RaftMessage.toJson, ← String.ofList_append, hv, String.ofList_toList]
        rw [← hbytes, String.size_toByteArray, htext, String.utf8ByteSize_append] at hsize
        omega
      have hcut : text.toList <+: dumps fl (.obj m.asdict) :=
        (List.prefix_or_prefix_of_prefix hstem (List.prefix_append _ _)).resolve_right hwhole
      obtain ⟨u, hu⟩ := braces m
      have hstrip : Lib.Text.strip text.toList <+: text.toList := strip_prefix (hu ▸ hcut)
      obtain ⟨t, ht⟩ := hstrip.trans hcut
      have hne : t ≠ [] := by
        rintro rfl
        rw [List.append_nil] at ht
        exact hwhole (ht ▸ hstrip)
      refine ⟨.jsonDecodeError, by decide, ?_⟩
      simp only
      rw [RaftMessage.fromJson, loads_cut fl hm ht.symm hne]

end Lines

variable {handler : RaftMessage fl.Num → Option (RaftMessage fl.Num)}
  {msg : RaftMessage fl.Num} {request response : ByteArray}

theorem line_ne_empty (m : RaftMessage fl.Num) : m.line ≠ .empty := by
  intro h
  have hsize := size_line m
  rw [h] at hsize
  cases hsize

theorem handleClient_whole (hmsg : msg.IsJson) (hrequest : Recv msg.line request)
    (hsize : msg.toJson.utf8ByteSize ≤ request.size) :
    handleClient (some handler) request =
      (some msg, ((handler msg).map RaftMessage.line).getD .empty) := by
  obtain ⟨rest, hrest⟩ := hrequest.part
  have hne : request ≠ .empty := fun h => line_ne_empty msg (hrequest.empty h)
  simp only [handleClient, if_neg hne, received_whole hmsg hrest hsize]

theorem handleClient_cut (hmsg : msg.IsJson) (hrequest : Recv msg.line request)
    (hsize : request.size < msg.toJson.utf8ByteSize) :
    handleClient (some handler) request = (none, .empty) := by
  obtain ⟨rest, hrest⟩ := hrequest.part
  have hne : request ≠ .empty := fun h => line_ne_empty msg (hrequest.empty h)
  obtain ⟨e, -, he⟩ := received_cut hmsg hrest hsize
  simp only [handleClient, if_neg hne, he]

theorem sendMessage_whole (hmsg : msg.IsJson) (hresponse : Recv msg.line response)
    (hsize : msg.toJson.utf8ByteSize ≤ response.size) :
    sendMessage fl response = .ok (some msg) := by
  obtain ⟨rest, hrest⟩ := hresponse.part
  have hne : response ≠ .empty := fun h => line_ne_empty msg (hresponse.empty h)
  rw [sendMessage, if_neg hne, received_whole hmsg hrest hsize]

theorem sendMessage_cut (hmsg : msg.IsJson) (hresponse : Recv msg.line response)
    (hsize : response.size < msg.toJson.utf8ByteSize) : sendMessage fl response = .ok none := by
  obtain ⟨rest, hrest⟩ := hresponse.part
  have hne : response ≠ .empty := fun h => line_ne_empty msg (hresponse.empty h)
  obtain ⟨e, hnot, he⟩ := received_cut hmsg hrest hsize
  rw [sendMessage, if_neg hne, he]
  cases e with
  | typeError => exact absurd rfl hnot
  | jsonDecodeError | unicodeDecodeError => rfl

theorem sendMessage_nothing (fl : Floats) {response : ByteArray} (h : Recv .empty response) : sendMessage fl response = .ok none := by
  obtain ⟨rest, hrest⟩ := h.part
  have hsize := congrArg ByteArray.size hrest
  rw [ByteArray.size_append, ByteArray.size_empty] at hsize
  rw [sendMessage, if_pos (ByteArray.size_eq_zero_iff.mp (by omega))]

/-- The message reaches the handler and the response the sender, as they were
sent, exactly when the one recv on each side returns the whole JSON text. -/
theorem send_message_iff (hmsg : msg.IsJson) (hhandler : ∀ r, handler msg = some r → r.IsJson)
    (hrequest : Recv msg.line request)
    (hresponse : Recv (handleClient (some handler) request).2 response) :
    ((handleClient (some handler) request).1 = some msg ∧
      sendMessage fl response = .ok (handler msg)) ↔
    (msg.toJson.utf8ByteSize ≤ request.size ∧
      ∀ r, handler msg = some r → r.toJson.utf8ByteSize ≤ response.size) := by
  rcases Nat.lt_or_ge request.size msg.toJson.utf8ByteSize with hcut | hwhole
  · rw [handleClient_cut hmsg hrequest hcut]
    constructor
    · rintro ⟨hnone, -⟩
      cases hnone
    · rintro ⟨hsize, -⟩
      omega
  rw [handleClient_whole hmsg hrequest hwhole] at hresponse ⊢
  simp only [true_and]
  cases hr : handler msg with
  | none =>
      rw [hr] at hresponse
      have hsent := sendMessage_nothing fl hresponse
      simp [hsent, hwhole]
  | some r =>
      rw [hr] at hresponse
      rcases Nat.lt_or_ge response.size r.toJson.utf8ByteSize with hshort | hsize
      · have hsent := sendMessage_cut (hhandler r hr) hresponse hshort
        rw [hsent]
        constructor
        · rintro ⟨⟩
        · rintro ⟨-, hall⟩
          have := hall r rfl
          omega
      · have hsent := sendMessage_whole (hhandler r hr) hresponse hsize
        rw [hsent]
        simp [hwhole, hsize]

/-- Floats of one value, for messages that have none. -/
def noFloats : Floats where
  Num := Unit
  repr _ := "0.0".toList
  parse _ := ()
  parse_repr _ _ _ _ _ := rfl

def healthCheck : RaftMessage noFloats.Num where
  type := .str "HealthRequest"
  senderId := .str "health-checker"
  term := .int 0
  data := .obj [("action", .str "ping")]

theorem healthCheck_isJson : healthCheck.IsJson := by
  simp [RaftMessage.IsJson, RaftMessage.asdict, healthCheck, Ok, OkMembers]

theorem healthCheck_size : healthCheck.toJson.utf8ByteSize = 95 := by decide +kernel

theorem recv_healthCheck : Recv healthCheck.line healthCheck.line where
  part := ⟨.empty, ByteArray.append_empty.symm⟩
  size := by
    rw [size_line, healthCheck_size]
    decide
  empty := id

theorem send_message_healthCheck :
    ((handleClient (some some) healthCheck.line).1 = some healthCheck ∧
      sendMessage noFloats healthCheck.line = .ok (some healthCheck)) ↔
    (healthCheck.toJson.utf8ByteSize ≤ healthCheck.line.size ∧
      ∀ r, some healthCheck = some r → r.toJson.utf8ByteSize ≤ healthCheck.line.size) := by
  have hanswer : (@handleClient noFloats (some some) healthCheck.line).2 = healthCheck.line := by
    rw [handleClient_whole healthCheck_isJson recv_healthCheck (by rw [size_line]; omega)]
    rfl
  refine send_message_iff healthCheck_isJson ?_ recv_healthCheck ?_
  · rintro r ⟨⟩
    exact healthCheck_isJson
  · rw [hanswer]
    exact recv_healthCheck

/-- One byte of the message is no JSON text: the handler is not called. -/
theorem send_message_split : ¬ ∀ (fl : Floats)
    (handler : RaftMessage fl.Num → Option (RaftMessage fl.Num)) (msg : RaftMessage fl.Num)
    (request response : ByteArray), msg.IsJson → (∀ r, handler msg = some r → r.IsJson) →
    Recv msg.line request → Recv (handleClient (some handler) request).2 response →
    (handleClient (some handler) request).1 = some msg ∧
      sendMessage fl response = .ok (handler msg) := by
  intro hall
  obtain ⟨u, hu⟩ := braces healthCheck
  have hone : "\x7b".toByteArray.size = 1 := by decide
  have hrequest : Recv healthCheck.line "\x7b".toByteArray := by
    refine ⟨⟨(String.ofList (u ++ ['}']) ++ "\n").toByteArray, ?_⟩, by rw [hone]; decide, ?_⟩
    · rw [← String.toByteArray_append, RaftMessage.line, RaftMessage.toJson, hu, ← String.append_assoc]
      rw [← List.singleton_append, String.ofList_append]
    · intro hempty
      rw [hempty] at hone
      cases hone
  have hcut := @handleClient_cut noFloats some _ _ healthCheck_isJson hrequest
    (by rw [hone, healthCheck_size]; decide)
  have hgot := hall noFloats some healthCheck "\x7b".toByteArray .empty healthCheck_isJson ?_
    hrequest ?_
  · rw [hcut] at hgot
    cases hgot.1
  · rintro r ⟨⟩
    exact healthCheck_isJson
  · rw [hcut]
    exact ⟨⟨.empty, ByteArray.append_empty.symm⟩, by decide, id⟩

end Prodinamik.Raft.Wire
