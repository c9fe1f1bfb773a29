import JsonSurvey.Proofs.FileTree.Path

/-! What goes wrong with files. An operation on a path fails by trouble of the file tree, or because
of a code point of the path: a null character, or a surrogate that stands for no byte
(`Fault.IsOfPath`). Making a directory goes by the paths of the directories above, whose code points
are all among its own and which have one name less each; so nothing else is blamed there either but
too many names (`makeDirectories_fault`). -/

namespace JsonSurvey

/-! ### Code points without an encoding -/

namespace Utf8

variable {one : CodePoint → Option (List Byte)}

/-- A text without an encoding has a code point without one, and the gap names it. -/
theorem encodeFrom_eq_error {place : Nat} {done : List Byte} {t : Text} {gap : Gap}
    (h : encodeFrom one place done t = .error gap) :
    gap.surrogate ∈ t ∧ one gap.surrogate = none := by
  induction t generalizing place done with
  | nil => contradiction
  | cons c t ih =>
    rw [encodeFrom] at h
    split at h
    · exact (ih h).imp_left (.tail _)
    · next hnone =>
      cases h
      exact ⟨List.mem_cons_self, hnone⟩

/-- Only surrogates have no encoding. -/
theorem isSurrogate_of_encodeCodePoint? {c : CodePoint} (h : encodeCodePoint? c = none) :
    c.isSurrogate = true := by
  unfold encodeCodePoint? at h
  split at h
  · contradiction
  split at h
  · contradiction
  split at h
  · next hsurrogate => exact hsurrogate
  split at h <;> contradiction

/-- A code point that no name can hold can be in no text either. -/
theorem encodeCodePoint?_of_encodeNamePoint? {c : CodePoint} (h : encodeNamePoint? c = none) :
    encodeCodePoint? c = none := by
  unfold encodeNamePoint? at h
  split at h
  · contradiction
  · exact h

end Utf8

/-! ### Faults of paths -/

/-- A fault of the file tree, or one for which a code point of the path is to blame. -/
inductive Fault.IsOfPath (path : Text) : Fault → Prop
  | file (trouble : FileTrouble) (at' : Text) : IsOfPath path (.file trouble at')
  | null : 0 ∈ path → IsOfPath path .nullCharacter
  | gap {gap : Utf8.Gap} : gap.surrogate ∈ path → Utf8.encodeNamePoint? gap.surrogate = none →
    IsOfPath path (.notEncodable gap)

namespace Fault.IsOfPath

variable {path path' : Text} {fault : Fault}

theorem mono (h : IsOfPath path fault) (hsubset : path ⊆ path') : IsOfPath path' fault := by
  cases h with
  | file trouble at' => exact .file trouble at'
  | null hmem => exact .null (hsubset hmem)
  | gap hmem hnone => exact .gap (hsubset hmem) hnone

/-- A bad path is bad content, unless the file tree is to blame. -/
theorem isBadContent_or (h : IsOfPath path fault) :
    fault.isBadContent = true ∨ fault.isFileTrouble = true := by
  cases h with
  | file => exact .inr rfl
  | null => exact .inl rfl
  | gap => exact .inl rfl

end Fault.IsOfPath

namespace Path

theorem beforeLast_subset (path : Text) : beforeLast path ⊆ path := by
  have hfront : path.reverse.dropWhile (· != slash) ⊆ path := fun c hc =>
    List.mem_reverse.mp ((List.dropWhile_suffix _).subset hc)
  intro c hc
  unfold beforeLast at hc
  dsimp only at hc
  split at hc
  · exact hfront (List.mem_reverse.mp hc)
  · exact hfront ((List.dropWhile_suffix _).subset (List.mem_reverse.mp hc))

theorem split_fst_subset (path : Text) : (split path).1 ⊆ path := by
  unfold split
  split
  · exact fun c hc => beforeLast_subset path (beforeLast_subset _ hc)
  · exact beforeLast_subset path

end Path

namespace FileTree

variable {tree tree' : FileTree} {path : Text} {fault : Fault}

theorem pathFault?_isOfPath (h : pathFault? path = some fault) : fault.IsOfPath path := by
  unfold pathFault? at h
  split at h
  · next gap hgap =>
    cases h
    obtain ⟨hmem, hnone⟩ := Utf8.encodeFrom_eq_error hgap
    exact .gap hmem hnone
  · split at h
    · next hnull =>
      cases h
      exact .null (List.contains_iff_mem.mp hnull)
    · contradiction

theorem onPath_isOfPath {α : Type} {operation : Except FileTrouble α}
    (h : onPath path operation = .error fault) : fault.IsOfPath path := by
  unfold onPath at h
  split at h
  · next hfault =>
    cases h
    exact pathFault?_isOfPath hfault
  · cases operation with
    | ok a => contradiction
    | error trouble =>
      cases h
      exact .file trouble path

theorem ensureDirectory_isOfPath (h : tree.ensureDirectory path = (tree', some fault)) :
    fault.IsOfPath path := by
  unfold ensureDirectory at h
  split at h
  · cases h
  · next hmake =>
    split at h
    · cases h
    · cases h
      exact onPath_isOfPath hmake

theorem makeDirectoriesWithin_fault {calls : Nat}
    (h : tree.makeDirectoriesWithin calls path = (tree', some fault)) :
    fault.IsOfPath path ∨ fault = .tooDeep ∧ calls ≤ (Path.names path).length := by
  fun_induction makeDirectoriesWithin tree calls path with
  | case1 =>
    cases h
    exact .inr ⟨rfl, Nat.zero_le _⟩
  | case2 | case4 => cases h
  | case3 | case5 | case7 => exact .inl (ensureDirectory_isOfPath h)
  | case6 calls path hmissing made fault' _ hmake ih =>
    cases h
    rcases ih hmake with hpath | ⟨hdeep, hcalls⟩
    · exact .inl (hpath.mono (Path.split_fst_subset path))
    · refine .inr ⟨hdeep, ?_⟩
      rw [Path.names_split hmissing.2.1, List.length_append]
      exact Nat.add_le_add_right hcalls 1

/-- What keeps a directory from being made is trouble of the file tree, a code point of its path, or
that the path has too many names. -/
theorem makeDirectories_fault (h : tree.makeDirectories path = (tree', some fault)) :
    fault.IsOfPath path ∨ fault = .tooDeep ∧ maxMissing ≤ (Path.names path).length :=
  makeDirectoriesWithin_fault h

/-- A path with so many names for a directory itself behind its first name. -/
def missingPath : Nat → Text
  | 0 => "a"
  | n + 1 => missingPath n ++ Path.slash :: Path.here

theorem getLast?_missingPath (n : Nat) : (missingPath n).getLast? ≠ some Path.slash := by
  cases n with
  | zero => decide
  | succ n =>
    rw [missingPath, List.getLast?_append_of_ne_nil _ (List.cons_ne_nil _ _)]
    decide

theorem exists_names_missingPath (n : Nat) :
    ∃ rest, Path.names (missingPath n) = Text.ofString "a" :: rest := by
  induction n with
  | zero => exact ⟨[], rfl⟩
  | succ n ih =>
    obtain ⟨rest, hrest⟩ := ih
    rw [missingPath, Path.names_append_slash _ (by decide) (by decide), hrest]
    exact ⟨_, rfl⟩

theorem missingPath_ne_nil (n : Nat) : missingPath n ≠ [] := by
  intro hnil
  obtain ⟨rest, hrest⟩ := exists_names_missingPath n
  rw [hnil] at hrest
  contradiction

theorem split_missingPath (n : Nat) :
    Path.split (missingPath (n + 1)) = (missingPath n, Path.here) := by
  have hhere : Path.slash ∉ Path.here := by decide
  have hlast : Path.lastPart (missingPath (n + 1)) = Path.here :=
    Path.lastPart_append_slash _ hhere
  rw [Path.split, hlast, if_neg (by decide), missingPath,
    Path.beforeLast_append_slash (missingPath_ne_nil n) (getLast?_missingPath n) hhere]

theorem has_missingPath (n : Nat) : empty.has (missingPath n) = false := by
  obtain ⟨rest, hrest⟩ := exists_names_missingPath n
  have hstep : IsStep (Text.ofString "a") := ⟨by decide, by decide, by decide⟩
  exact has_empty hrest hstep

theorem makeDirectoriesWithin_missingPath {calls n : Nat} (h : calls ≤ n) :
    empty.makeDirectoriesWithin calls (missingPath n) = (empty, some .tooDeep) := by
  induction calls generalizing n with
  | zero => rfl
  | succ calls ih =>
    obtain ⟨n, rfl⟩ := Nat.exists_eq_add_one_of_ne_zero (Nat.ne_of_gt (Nat.zero_lt_of_lt h))
    have hmissing : missingPath n ≠ [] ∧ Path.here ≠ [] ∧ (!empty.has (missingPath n)) = true :=
      ⟨missingPath_ne_nil n, by decide, by rw [has_missingPath, Bool.not_false]⟩
    rw [makeDirectoriesWithin, split_missingPath, if_pos hmissing, ih (Nat.le_of_succ_le_succ h)]

/-- In the tree with nothing below its root, such a directory is not made if it has too many names,
and neither is any directory above it. -/
theorem makeDirectories_missingPath {n : Nat} (h : maxMissing ≤ n) :
    empty.makeDirectories (missingPath n) = (empty, some .tooDeep) :=
  makeDirectoriesWithin_missingPath h

theorem startFile_isOfPath (h : tree.startFile path = .error fault) : fault.IsOfPath path :=
  onPath_isOfPath h

/-! ### Faults of chunks -/

/-- Writing stops at a chunk that is a fault, or at a surrogate of one that is a text. -/
theorem writeChunks_eq_some {chunks : List (Except Fault Text)}
    (h : (writeChunks [] chunks).2 = some fault) :
    .error fault ∈ chunks ∨ ∃ gap t, fault = .notEncodable gap ∧ .ok t ∈ chunks ∧
      gap.surrogate ∈ t ∧ gap.surrogate.isSurrogate = true := by
  obtain ⟨texts, rest, hchunks, hends, _⟩ := exists_ends_of_writeChunks chunks
  rw [h] at hends
  cases hends with
  | stop rest hstop =>
    have hmem : _ ∈ chunks := hchunks ▸ List.mem_append_right _ List.mem_cons_self
    cases hstop with
    | fault => exact .inl hmem
    | gap hgap =>
      obtain ⟨hsurrogate, hnone⟩ := Utf8.encodeFrom_eq_error hgap
      exact .inr ⟨_, _, rfl, hmem, hsurrogate, Utf8.isSurrogate_of_encodeCodePoint? hnone⟩

/-- What keeps chunks from being written to a file lies in its path, on the disk or in the
chunks. -/
theorem write_eq_some {chunks : List (Except Fault Text)}
    (h : tree.write path chunks = (tree', some fault)) :
    fault.IsOfPath path ∨ (∃ trouble, fault = .incomplete trouble) ∨ .error fault ∈ chunks ∨
      ∃ gap t, fault = .notEncodable gap ∧ .ok t ∈ chunks ∧ gap.surrogate ∈ t ∧
        gap.surrogate.isSurrogate = true := by
  cases hstart : tree.startFile path with
  | error fault' =>
    rw [write, hstart] at h
    cases h
    exact .inl (startFile_isOfPath hstart)
  | ok started =>
  obtain ⟨started, number⟩ := started
  rw [write_of_startFile hstart] at h
  obtain ⟨_, hfault⟩ := Prod.mk.inj h
  rcases Option.or_eq_some_iff.mp hfault with htrouble | ⟨_, hchunks⟩
  · obtain ⟨trouble, _, rfl⟩ := Option.map_eq_some_iff.mp htrouble
    exact .inr (.inl ⟨trouble, rfl⟩)
  · exact .inr (.inr (writeChunks_eq_some hchunks))

end FileTree
end JsonSurvey
