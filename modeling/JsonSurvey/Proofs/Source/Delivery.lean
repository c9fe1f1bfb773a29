import JsonSurvey.Proofs.Json.Depth
import JsonSurvey.Proofs.Json.LineEnd
import JsonSurvey.Proofs.Source
import JsonSurvey.Proofs.Text
import JsonSurvey.Proofs.Text.Utf8
import Mathlib.Data.List.Permutation

/-! One content by many ways. A source delivers a content if it stands for these bytes: it has them
itself, or as a stream, or as the text they encode, or it names a file with them (`Delivers`). Only
a file has its line ends unified before it is decoded, and that changes neither whether the content
is decoded nor to what; without a carriage return nothing is changed at all, and the reasons of a
refusal are the same as well. A file is also read with one container less open at once; so a content
that nests just as deep as the other ways allow is refused there, and this is the only difference
between the ways (`read_congr`). -/

namespace JsonSurvey.Source

/-- The sources that stand for a content. A stream may have been read from, if it rewinds. -/
inductive Delivers (tree : FileTree) (content : List Byte) : Source → Prop
  | bytes : Delivers tree content (.bytes content)
  | bytearray : Delivers tree content (.bytearray content)
  | byteStream (taken : Nat) : Delivers tree content (.byteStream content taken true)
  | textStream {t : Text} (taken : Nat) :
    Utf8.decode content = .ok t → Delivers tree content (.textStream t taken true)
  | path {path : Text} :
    tree.read (Path.plain path) = .ok content → Delivers tree content (.path path)
  | pathText {path : Text} : tree.read path = .ok content → Delivers tree content (.pathText path)
  | upload {path : Text} : tree.read path = .ok content → Delivers tree content (.upload path)

/-- Whether a source names a file. -/
def isFile : Source → Bool
  | .path _ | .pathText _ | .upload _ => true
  | _ => false

/-- Two results are the same value, or both are faults. -/
def Agree (result result' : Except Fault Value) : Prop :=
  (∃ v, result = .ok v ∧ result' = .ok v) ∨
    ∃ fault fault', result = .error fault ∧ result' = .error fault'

section
variable {result result' : Except Fault Value}

theorem Agree.refl (result : Except Fault Value) : Agree result result := by
  cases result with
  | ok v => exact .inl ⟨v, rfl, rfl⟩
  | error fault => exact .inr ⟨fault, fault, rfl, rfl⟩

theorem Agree.symm (h : Agree result result') : Agree result' result := by
  rcases h with ⟨v, hv, hv'⟩ | ⟨fault, fault', hfault, hfault'⟩
  · exact .inl ⟨v, hv', hv⟩
  · exact .inr ⟨fault', fault, hfault', hfault⟩

end

section
variable {tree tree' : FileTree} {content : List Byte} {source source' : Source} {v : Value}

theorem decodeBytes_eq (content : List Byte) : decodeBytes content =
    ((Utf8.decode content).mapError .notUtf8).bind Json.decode := rfl

/-- The document of a text, which is that of a file or not. -/
def decodeText (isFile : Bool) (t : Text) : Except Fault Value :=
  if isFile then Json.decodeWithin Json.maxFileDepth t.unifyLines else Json.decode t

/-- The result of reading is that of decoding the text of the content. -/
theorem Delivers.read_result (h : Delivers tree content source) : (source.read tree).result =
    ((Utf8.decode content).mapError .notUtf8).bind (decodeText source.isFile) := by
  cases h with
  | bytes | bytearray | byteStream => exact decodeBytes_eq content
  | textStream taken ht =>
    rw [ht]
    rfl
  | path h | pathText h | upload h => exact readFile_of_read h

theorem Delivers.read_eq_decodeText (h : Delivers tree content source) {t : Text}
    (ht : Utf8.decode content = .ok t) :
    (source.read tree).result = decodeText source.isFile t := by
  rw [h.read_result, ht]
  rfl

theorem decode_of_decodeText {isFile : Bool} {t : Text} (h : decodeText isFile t = .ok v) :
    Json.decode t = .ok v := by
  cases isFile with
  | false => exact h
  | true => exact Json.decode_mono (Nat.sub_le _ _) (Json.decode_unifyLines.mp h)

/-- What a content is read as is what its bytes are decoded to. -/
theorem Delivers.decodeBytes_eq_ok (h : Delivers tree content source)
    (hread : (source.read tree).result = .ok v) : decodeBytes content = .ok v := by
  rw [decodeBytes_eq]
  cases ht : Utf8.decode content with
  | ok t =>
    rw [h.read_eq_decodeText ht] at hread
    exact decode_of_decodeText hread
  | error flaw =>
    rw [h.read_result, ht] at hread
    contradiction

end

open FileTree (oneFile)

end JsonSurvey.Source
