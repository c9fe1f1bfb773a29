import JsonSurvey.Proofs.FileTree

/-! Names in directories. A name without a slash is the one name that joining adds to a directory
(`names_join`), and the last part of the path (`lastPart_join`); so a file that such a path names
stands in the directory itself (`NamesFile.find_directory`). -/

namespace JsonSurvey

namespace Path

variable {directory name path t : Text}

theorem parts_slash_cons (path : Text) : parts (slash :: path) = [] :: parts path := by
  rw [parts, List.foldr_cons, if_pos rfl, parts]

theorem parts_cons {c : CodePoint} {path part : Text} {others : List Text} (hc : c ≠ slash)
    (h : parts path = part :: others) : parts (c :: path) = (c :: part) :: others := by
  rw [parts] at h ⊢
  rw [List.foldr_cons, if_neg hc, h]

theorem parts_ne_nil (path : Text) : parts path ≠ [] := by
  induction path with
  | nil => exact List.cons_ne_nil _ _
  | cons c path ih =>
    by_cases hc : c = slash
    · rw [hc, parts_slash_cons]
      exact List.cons_ne_nil _ _
    · obtain ⟨part, others, hparts⟩ := List.exists_cons_of_ne_nil ih
      rw [parts_cons hc hparts]
      exact List.cons_ne_nil _ _

/-- A slash divides a path. -/
theorem parts_append_slash (front back : Text) :
    parts (front ++ slash :: back) = parts front ++ parts back := by
  induction front with
  | nil => exact parts_slash_cons back
  | cons c front ih =>
    rw [List.cons_append]
    by_cases hc : c = slash
    · rw [hc, parts_slash_cons, parts_slash_cons, ih, List.cons_append]
    · obtain ⟨part, others, hparts⟩ := List.exists_cons_of_ne_nil (parts_ne_nil front)
      have hjoined : parts (front ++ slash :: back) = part :: (others ++ parts back) := by
        rw [ih, hparts, List.cons_append]
      rw [parts_cons hc hjoined, parts_cons hc hparts, List.cons_append]

theorem parts_of_notMem (h : slash ∉ t) : parts t = [t] := by
  induction t with
  | nil => rfl
  | cons c t ih =>
    obtain ⟨hc, ht⟩ := not_or.mp (mt List.mem_cons.mpr h)
    exact parts_cons (Ne.symm hc) (ih ht)

theorem names_append_slash (front : Text) (hne : name ≠ []) (hname : slash ∉ name) :
    names (front ++ slash :: name) = names front ++ [name] := by
  rw [names, parts_append_slash, List.filter_append, parts_of_notMem hname, names]
  refine congrArg _ (List.filter_eq_self.mpr fun part hpart => ?_)
  rw [List.mem_singleton.mp hpart]
  simpa using hne

theorem lastPart_append_slash (front : Text) (hname : slash ∉ name) :
    lastPart (front ++ slash :: name) = name := by
  rw [lastPart, List.reverse_append, List.reverse_cons, List.append_assoc,
    List.takeWhile_append_of_pos, List.singleton_append, List.takeWhile_cons_of_neg (by simp),
    List.append_nil, List.reverse_reverse]
  intro c hc
  rw [bne_iff_ne]
  rintro rfl
  exact hname (List.mem_reverse.mp hc)

theorem names_of_notMem (h : slash ∉ t) (hne : t ≠ []) : names t = [t] := by
  rw [names, parts_of_notMem h]
  exact List.filter_cons_of_pos (bne_iff_ne.mpr hne)

theorem names_append_slash_append (front back : Text) :
    names (front ++ slash :: back) = names front ++ names back := by
  rw [names, parts_append_slash, List.filter_append, names, names]

/-- What comes before the last slash, if that one stands alone. -/
theorem beforeLast_append_slash {front : Text} (hne : front ≠ [])
    (hfront : front.getLast? ≠ some slash) (hname : slash ∉ name) :
    beforeLast (front ++ slash :: name) = front := by
  have hbehind : (front ++ slash :: name).reverse.dropWhile (· != slash) =
      slash :: front.reverse := by
    rw [List.reverse_append, List.reverse_cons, List.append_assoc,
      List.dropWhile_append_of_pos, List.singleton_append, List.dropWhile_cons_of_neg (by simp)]
    intro c hc
    rw [bne_iff_ne]
    rintro rfl
    exact hname (List.mem_reverse.mp hc)
  have htrimmed : (slash :: front.reverse).dropWhile (· == slash) = front.reverse := by
    rw [List.dropWhile_cons, if_pos (by simp)]
    cases hreverse : front.reverse with
    | nil => rfl
    | cons c rest =>
      have hc : c ≠ slash := by
        rintro rfl
        rw [List.getLast?_eq_head?_reverse, hreverse] at hfront
        exact hfront rfl
      rw [List.dropWhile_cons, if_neg (by simpa using hc)]
  simp only [beforeLast, hbehind, htrimmed, List.reverse_eq_nil_iff, if_neg hne,
    List.reverse_reverse]

/-- Slashes at the end of a path add no names. -/
theorem names_reverse_dropWhile (t : Text) :
    names (t.dropWhile (· == slash)).reverse = names t.reverse := by
  induction t with
  | nil => rfl
  | cons c t ih =>
    by_cases hc : c = slash
    · have hslash : (c == slash) = true := by simpa using hc
      rw [List.dropWhile_cons, if_pos hslash, ih, List.reverse_cons, hc, names_append_slash_append]
      exact (List.append_nil _).symm
    · rw [List.dropWhile_cons_of_neg (by simpa using hc)]

theorem slash_notMem_lastPart (path : Text) : slash ∉ lastPart path := by
  intro h
  have hne := List.all_eq_true.mp List.all_takeWhile slash (List.mem_reverse.mp h)
  simp at hne

/-- The names of a path are those in front of its last part and those of that part. -/
theorem names_eq_append (path : Text) :
    names path = names (beforeLast path) ++ names (lastPart path) := by
  have hpath : path = (path.reverse.dropWhile (· != slash)).reverse ++ lastPart path := by
    rw [lastPart, ← List.reverse_append, List.takeWhile_append_dropWhile, List.reverse_reverse]
  have hbefore : names (beforeLast path) =
      names (path.reverse.dropWhile (· != slash)).reverse := by
    unfold beforeLast
    dsimp only
    split
    · rfl
    · exact names_reverse_dropWhile _
  rw [hbefore]
  conv_lhs => rw [hpath]
  cases hfront : path.reverse.dropWhile (· != slash) with
  | nil => rfl
  | cons c front =>
    have hhead := List.head?_dropWhile_not (· != slash) path.reverse
    rw [hfront] at hhead
    obtain rfl : c = slash := by simpa using hhead
    rw [List.reverse_cons, List.append_assoc, List.singleton_append, names_append_slash_append,
      names_append_slash_append]
    exact congrArg (· ++ _) (List.append_nil _).symm

/-- The last name of a path is split off it. -/
theorem names_split (h : (split path).2 ≠ []) :
    names path = names (split path).1 ++ [(split path).2] := by
  have hlast {path : Text} (h : lastPart path ≠ []) : names (lastPart path) = [lastPart path] :=
    names_of_notMem (slash_notMem_lastPart path) h
  unfold split at h ⊢
  split at h
  · next hnil =>
    rw [if_pos hnil, names_eq_append, hnil, names_eq_append (beforeLast path), hlast h]
    exact List.append_nil _
  · next hne =>
    rw [if_neg hne, names_eq_append, hlast hne]

/-- A name is joined to a directory behind a slash, which the directory may have at its end. -/
theorem exists_join (hdirectory : directory ≠ []) (hname : slash ∉ name) :
    ∃ front, join directory name = front ++ slash :: name ∧ names front = names directory := by
  have hhead : name.head? ≠ some slash := fun h => hname (List.mem_of_mem_head? h)
  rw [join, if_neg hhead]
  split
  · next hslash =>
    obtain ⟨hne, hlast⟩ := List.mem_getLast?_eq_getLast (hslash.resolve_left hdirectory)
    have hsplit := List.dropLast_concat_getLast hne
    rw [← hlast] at hsplit
    refine ⟨directory.dropLast, ?_, ?_⟩
    · rw [← hsplit]
      simp
    · conv_rhs => rw [names, ← hsplit, parts_append_slash, List.filter_append]
      exact (List.append_nil _).symm
  · exact ⟨directory, rfl, rfl⟩

theorem names_join (hdirectory : directory ≠ []) (hne : name ≠ []) (hname : slash ∉ name) :
    names (join directory name) = names directory ++ [name] := by
  obtain ⟨front, hjoin, hfront⟩ := exists_join hdirectory hname
  rw [hjoin, names_append_slash front hne hname, hfront]

theorem lastPart_join (hdirectory : directory ≠ []) (hname : slash ∉ name) :
    lastPart (join directory name) = name := by
  obtain ⟨front, hjoin, _⟩ := exists_join hdirectory hname
  rw [hjoin, lastPart_append_slash front hname]

theorem prefix_join (hname : slash ∉ name) : directory <+: join directory name := by
  have hhead : name.head? ≠ some slash := fun h => hname (List.mem_of_mem_head? h)
  rw [join, if_neg hhead]
  split <;> exact List.prefix_append _ _

end Path

namespace Utf8

theorem prefix_of_encodeFrom {one : CodePoint → Option (List Byte)} {place : Nat}
    {done bytes : List Byte} {t : Text} (h : encodeFrom one place done t = .ok bytes) :
    done.reverse <+: bytes := by
  induction t generalizing place done with
  | nil =>
    cases h
    exact List.prefix_rfl
  | cons c t ih =>
    rw [encodeFrom] at h
    split at h
    · have hbytes := ih h
      rw [List.reverse_append] at hbytes
      exact (List.prefix_append _ _).trans hbytes
    · contradiction

/-- The beginning of a text that can be encoded has the first of its bytes. -/
theorem encodeFrom_append {one : CodePoint → Option (List Byte)} {place : Nat}
    {done bytes : List Byte} {s t : Text} (h : encodeFrom one place done (s ++ t) = .ok bytes) :
    ∃ bytes', encodeFrom one place done s = .ok bytes' ∧ bytes' <+: bytes := by
  induction s generalizing place done with
  | nil => exact ⟨_, rfl, prefix_of_encodeFrom h⟩
  | cons c s ih =>
    rw [List.cons_append, encodeFrom] at h
    rw [encodeFrom]
    split at h
    · exact ih h
    · contradiction

end Utf8

namespace FileTree

variable {tree : FileTree} {path path' directory name : Text} {place target : List Name}

theorem length_nameBytes_le (h : pathFault? path' = none) (hbegins : path <+: path') :
    (Utf8.nameBytes path).length ≤ (Utf8.nameBytes path').length := by
  obtain ⟨rest, rfl⟩ := hbegins
  unfold pathFault? at h
  split at h
  · contradiction
  next bytes hbytes =>
  obtain ⟨bytes', hbytes', hle⟩ := Utf8.encodeFrom_append hbytes
  rw [← Utf8.encodeName] at hbytes'
  rw [Utf8.nameBytes, Utf8.nameBytes, hbytes, hbytes']
  exact hle.length_le

/-- A file that is named by a name in a directory stands in that directory, unless there is a link
under that name. -/
theorem NamesFile.find_directory (hdirectory : directory ≠ []) (hne : name ≠ [])
    (hname : Path.slash ∉ name) (h : NamesFile tree (Path.join directory name) target) :
    ∃ place, tree.find directory = .ok (place, .directory) ∧
      (target = place ++ [Utf8.nameBytes name] ∨
        ∃ t, tree.entry? (place ++ [Utf8.nameBytes name]) = some (.link t)) := by
  have hleads := h.leads
  rw [Path.names_join hdirectory hne hname] at hleads
  obtain ⟨place, left, hfront, hplace, hback⟩ :=
    hleads.split (grounded_nil tree) (List.cons_ne_nil _ _)
  have hlength := length_nameBytes_le h.noFault (Path.prefix_join hname)
  have hsteps : Leads tree maxLinks [] (Path.steps directory) place := by
    unfold Path.steps
    split
    · exact hfront.concat_here hplace.isDirectory
    · rwa [List.append_nil]
  have hshort := Nat.lt_of_le_of_lt hlength h.length_lt
  refine ⟨place, hsteps.find_eq_ok hdirectory hshort hplace.isDirectory, ?_⟩
  cases hback with
  | here hnil =>
    cases hnil
    exact absurd hplace.isDirectory h.mayHold.ne_directory
  | above hnil =>
    cases hnil
    exact absurd hplace.dropLast.isDirectory h.mayHold.ne_directory
  | down _ hself hnil =>
    cases hnil
    exact absurd hself h.mayHold.ne_directory
  | last => exact .inl rfl
  | jump _ hlink => exact .inr ⟨_, hlink⟩

end FileTree
end JsonSurvey
