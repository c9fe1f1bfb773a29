import JsonSurvey.Proofs.FileTree.Fault
import JsonSurvey.Proofs.Json.Reader
import JsonSurvey.Source

/-! What comes of reading a source. Either there is a text and the result is that of decoding it, or
the source gives no text, for a reason that lies in its content or in the file tree
(`read_eq_decode_or`). -/

namespace JsonSurvey

/-! ### Reports -/

namespace Report

variable {α β : Type}

/-- The result of a report is that of its steps, whatever they log. -/
theorem result_bind (r : Report α) (f : α → Report β) :
    (r >>= f).result = r.result.bind fun a => (f a).result := by
  cases h : r.result <;> simp [bind, h, Except.bind]

end Report

/-! ### Faults of decoding -/

namespace Json

theorem isBadContent_of_decode {limit : Nat} {t : Text} {fault : Fault}
    (h : decodeWithin limit t = .error fault) : fault.isBadContent = true := by
  unfold decodeWithin at h
  split at h
  · cases h
    rfl
  · cases hrun : run limit [] .value (tokens t) with
    | ok v =>
      rw [hrun] at h
      contradiction
    | error refusal =>
      rw [hrun] at h
      cases h
      cases refusal <;> rfl

end Json

namespace Source

/-! ### Reading -/

/-- Whether a source is of one of the types that can be read from. -/
def isSupported : Source → Bool
  | .unreadable _ => false
  | _ => true

variable {tree : FileTree} {source : Source} {fault : Fault}

theorem readFile_result (tree : FileTree) (path : Text) :
    (readFile tree path).result = (tree.read path).bind fun content =>
      ((Utf8.decode content).mapError .notUtf8).bind fun text =>
        Json.decodeWithin Json.maxFileDepth text.unifyLines := by
  rw [readFile]
  simp only [Report.result_bind]
  rfl

theorem readFile_of_read {path : Text} {content : List Byte} (h : tree.read path = .ok content) :
    (readFile tree path).result = ((Utf8.decode content).mapError .notUtf8).bind fun text =>
      Json.decodeWithin Json.maxFileDepth text.unifyLines := by
  rw [readFile_result, h]
  rfl

/-- A source gives a text to be decoded within some limit, or a reason why it gives none. -/
theorem read_eq_decode_or (h : source.isSupported = true) (tree : FileTree) :
    (∃ limit t, (source.read tree).result = Json.decodeWithin limit t) ∨
      ∃ fault, (source.read tree).result = .error fault ∧
        (fault.isBadContent = true ∨ fault.isFileTrouble = true) := by
  have hbytes (content : List Byte) :
      (∃ limit t, decodeBytes content = Json.decodeWithin limit t) ∨
        ∃ fault, decodeBytes content = .error fault ∧
          (fault.isBadContent = true ∨ fault.isFileTrouble = true) := by
    rw [decodeBytes]
    cases Utf8.decode content with
    | ok t => exact .inl ⟨_, t, rfl⟩
    | error flaw => exact .inr ⟨.notUtf8 flaw, rfl, .inl rfl⟩
  have hfile (path : Text) :
      (∃ limit t, (readFile tree path).result = Json.decodeWithin limit t) ∨
        ∃ fault, (readFile tree path).result = .error fault ∧
          (fault.isBadContent = true ∨ fault.isFileTrouble = true) := by
    rw [readFile_result]
    cases hread : tree.read path with
    | error fault => exact .inr ⟨fault, rfl, (FileTree.onPath_isOfPath hread).isBadContent_or⟩
    | ok content =>
      simp only [Except.bind]
      cases Utf8.decode content with
      | ok t => exact .inl ⟨_, t.unifyLines, rfl⟩
      | error flaw => exact .inr ⟨.notUtf8 flaw, rfl, .inl rfl⟩
  cases source with
  | absent => exact .inr ⟨.nothingUploaded, rfl, .inl rfl⟩
  | bytes content | bytearray content | byteStream content => exact hbytes _
  | textStream content taken rewinds => exact .inl ⟨_, _, rfl⟩
  | path path | pathText path | upload path => exact hfile _
  | unreadable => contradiction

theorem read_error (h : source.isSupported = true)
    (hread : (source.read tree).result = .error fault) :
    fault.isBadContent = true ∨ fault.isFileTrouble = true := by
  rcases read_eq_decode_or h tree with ⟨limit, t, ht⟩ | ⟨fault', hfault, hcause⟩
  · exact .inl (Json.isBadContent_of_decode (ht.symm.trans hread))
  · cases hfault.symm.trans hread
    exact hcause

/-- A document that was read can be written and read back. -/
theorem read_isReadable {v : Value} (hread : (source.read tree).result = .ok v) :
    Json.IsReadable v := by
  have h : source.isSupported = true := by
    cases source with
    | unreadable => contradiction
    | _ => rfl
  rcases read_eq_decode_or h tree with ⟨limit, t, ht⟩ | ⟨fault', hfault, _⟩
  · exact Json.decode_isReadable (ht.symm.trans hread)
  · cases hfault.symm.trans hread

theorem read_isJson {v : Value} (hread : (source.read tree).result = .ok v) : v.IsJson :=
  (read_isReadable hread).isJson

end Source
end JsonSurvey
