import TapeLab.Disk.Tree

/-!
Writing, reading and taking away the file at one path. Folders stay folders, so that a path that
leads somewhere goes on leading there; the file itself is none of the folders on the way to it.
-/

namespace TapeLab.Tree

variable {t u : Tree} {p : Path} {place other : List String} {node : Node} {bytes : List UInt8}

theorem isAbove_of_node? (h : t.node? place ≠ some .folder) : isAbove place = false := by
  cases habove : isAbove place with
  | false => rfl
  | true => exact absurd (by simp [node?, habove]) h

theorem node?_remove_self (below : isAbove place = false) :
    (t.remove place).node? place = none := by
  simp [node?, remove, below]

theorem node?_remove_of_ne (differs : other ≠ place) :
    (t.remove place).node? other = t.node? other := by
  have h := node?_put_of_ne t .folder differs
  have first : Entry.isAt ⟨place.length, place, .folder⟩ other.length other = false := by
    simp [Entry.isAt, Ne.symm differs]
  simpa only [node?, put, List.find?_cons, first] using h

def Keeps (t u : Tree) : Prop := ∀ place node, t.node? place = some node → u.node? place = some node

def KeepsFolders (t u : Tree) : Prop :=
  ∀ place, t.node? place = some .folder → u.node? place = some .folder

theorem Keeps.folders (h : Keeps t u) : KeepsFolders t u := fun place => h place .folder

theorem Keeps.trans {v : Tree} (h : Keeps t u) (h' : Keeps u v) : Keeps t v :=
  fun place node hnode => h' place node (h place node hnode)

theorem keeps_put (h : t.node? place = none) : Keeps t (t.put place node) := by
  intro other there hthere
  have differs : other ≠ place := by
    rintro rfl
    rw [h] at hthere
    cases hthere
  rwa [node?_put_of_ne t node differs]

theorem keepsFolders_put (h : t.node? place ≠ some .folder) :
    KeepsFolders t (t.put place node) := by
  intro other hother
  have differs : other ≠ place := by
    rintro rfl
    exact h hother
  rwa [node?_put_of_ne t node differs]

theorem keepsFolders_remove (h : t.node? place ≠ some .folder) :
    KeepsFolders t (t.remove place) := by
  intro other hother
  have differs : other ≠ place := by
    rintro rfl
    exact h hother
  rwa [node?_remove_of_ne differs]

theorem walk_cons_eq_ok_iff {part : String} {parts : List String} :
    t.walk place (part :: parts) = .ok other ↔
      t.node? place = some .folder ∧ part.utf8ByteSize ≤ longestPart ∧
        t.walk (descend place part) parts = .ok other := by
  rw [walk]
  split
  · simp_all
  · simp_all
  · next hfolder =>
    split
    · next hlong => simp [hfolder, Nat.not_le.2 hlong]
    · next hshort => simp [hfolder, Nat.not_lt.1 hshort]

theorem KeepsFolders.walk (h : KeepsFolders t u) {parts : List String}
    (hwalk : t.walk place parts = .ok other) : u.walk place parts = .ok other := by
  induction parts generalizing place with
  | nil => exact hwalk
  | cons part parts ih =>
    obtain ⟨hfolder, hshort, hrest⟩ := walk_cons_eq_ok_iff.1 hwalk
    exact walk_cons_eq_ok_iff.2 ⟨h place hfolder, hshort, ih hrest⟩

theorem folder_of_walk {parts : List String} (hwalk : t.walk place parts = .ok other)
    (hother : t.node? other = some .folder) : t.node? place = some .folder := by
  cases parts with
  | nil =>
    cases hwalk
    exact hother
  | cons part parts => exact (walk_cons_eq_ok_iff.1 hwalk).1

theorem walk_concat_eq_ok_iff {parts : List String} {last : String} :
    t.walk place (parts ++ [last]) = .ok other ↔
      ∃ folder, t.walk place parts = .ok folder ∧ t.node? folder = some .folder ∧
        last.utf8ByteSize ≤ longestPart ∧ other = descend folder last := by
  induction parts generalizing place with
  | nil =>
    rw [List.nil_append, walk_cons_eq_ok_iff]
    simp [walk, eq_comm]
  | cons part parts ih =>
    rw [List.cons_append, walk_cons_eq_ok_iff, ih]
    constructor
    · rintro ⟨hplace, hshort, folder, hwalk, hlast⟩
      exact ⟨folder, walk_cons_eq_ok_iff.2 ⟨hplace, hshort, hwalk⟩, hlast⟩
    · rintro ⟨folder, hwalk, hlast⟩
      obtain ⟨hplace, hshort, hrest⟩ := walk_cons_eq_ok_iff.1 hwalk
      exact ⟨hplace, hshort, folder, hrest, hlast⟩

theorem makeAlong_eq_self {parts : List String} (taken : Path)
    (hwalk : t.walk place parts = .ok other) (hother : t.node? other = some .folder) :
    t.makeAlong place taken parts = (t, none) := by
  induction parts generalizing place taken with
  | nil => rfl
  | cons part parts ih =>
    obtain ⟨-, hshort, hrest⟩ := walk_cons_eq_ok_iff.1 hwalk
    have hnext := folder_of_walk hrest hother
    rw [makeAlong, if_neg (Nat.not_lt.2 hshort)]
    simp only [hnext]
    exact ih _ hrest

theorem keeps_makeAlong {parts : List String} {taken : Path}
    (h : t.makeAlong place taken parts = (u, none)) : Keeps t u := by
  induction parts generalizing t place taken with
  | nil =>
    cases h
    exact fun _ _ => id
  | cons part parts ih =>
    rw [makeAlong] at h
    split at h
    · cases h
    · dsimp only at h
      split at h
      · cases h
      · exact ih h
      · next hnone => exact (keeps_put hnone).trans (ih h)

theorem walk_of_makeAlong {parts : List String} {taken : Path} {last : String}
    (h : t.makeAlong place taken parts = (u, none))
    (hplace : ∀ bytes, t.node? place ≠ some (.file bytes))
    (hlast : last.utf8ByteSize ≤ longestPart) :
    (∃ other, t.walk place (parts ++ [last]) = .ok other) ∨
      t.walk place (parts ++ [last]) = .error .notFound := by
  induction parts generalizing place taken with
  | nil =>
    rw [List.nil_append, walk]
    split
    · exact .inr rfl
    · next hfile => exact absurd hfile (hplace _)
    · rw [if_neg (Nat.not_lt.2 hlast)]
      exact .inl ⟨_, rfl⟩
  | cons part parts ih =>
    rw [makeAlong] at h
    split at h
    · cases h
    · next hshort =>
      rw [List.cons_append, walk]
      split
      · exact .inr rfl
      · next hfile => exact absurd hfile (hplace _)
      · rw [if_neg hshort]
        dsimp only at h
        split at h
        · cases h
        · next hfolder => exact ih h fun bytes hfile => by simp [hfolder] at hfile
        · next hnone =>
          -- the way ends here in this tree, although it goes on in the one with the folders
          refine .inr ?_
          cases parts <;> simp [walk, hnone]

/-- Whether a path can be used in some tree: it has no zero in it and is not too long. -/
def IsUsable (p : Path) : Prop := p.hasNull = false ∧ p.toText.utf8ByteSize ≤ longestPath

theorem resolve_of_isUsable (hp : IsUsable p) (t : Tree) :
    t.resolve p = (t.walk p.start p.parts).mapError fun cause => .refused cause p := by
  rw [resolve, if_neg (by simp [hp.1]), if_neg (Nat.not_lt.2 hp.2)]
  cases t.walk p.start p.parts <;> rfl

theorem resolve_eq_ok_iff :
    t.resolve p = .ok place ↔ IsUsable p ∧ t.walk p.start p.parts = .ok place := by
  by_cases hp : IsUsable p
  · rw [resolve_of_isUsable hp]
    cases t.walk p.start p.parts with
    | ok q =>
      show (Except.ok q : Except FileError _) = .ok place ↔ _
      simp [hp]
    | error cause =>
      show (Except.error (.refused cause p) : Except FileError _) = .ok place ↔ _
      simp
  · simp only [hp, false_and, iff_false]
    intro h
    rw [resolve] at h
    split at h
    · cases h
    · next hnull =>
      split at h
      · cases h
      · next hlong => exact hp ⟨by simpa using hnull, Nat.not_lt.1 hlong⟩

theorem resolve_nullByte_iff : t.resolve p = .error .nullByte ↔ p.hasNull = true := by
  rw [resolve]
  cases hnull : p.hasNull with
  | true => simp
  | false =>
    simp only [Bool.false_eq_true, if_false, iff_false]
    intro h
    split at h
    · cases h
    · split at h <;> cases h

theorem read_nullByte_iff : t.read p = .error .nullByte ↔ p.hasNull = true := by
  rw [← resolve_nullByte_iff (t := t), read]
  cases t.resolve p with
  | error e => simp [bind, Except.bind]
  | ok place =>
    simp only [bind, Except.bind]
    split <;> exact ⟨nofun, nofun⟩

theorem unlink_of_hasNull (h : p.hasNull = true) : t.unlink p = .error .nullByte := by
  rw [unlink, resolve_nullByte_iff.2 h]
  rfl

theorem isRefusal_of_unlink {e : FileError} (hnull : p.hasNull = false)
    (h : t.unlink p = .error e) : e.isRefusal = true := by
  cases e with
  | refused cause path => rfl
  | nullByte =>
    rw [unlink] at h
    split at h
    · next e he =>
      split at h
      · cases h
      · cases h
        rw [resolve_nullByte_iff.1 he] at hnull
        cases hnull
    · split at h <;> cases h

theorem read_of_resolve (here : t.resolve p = .ok place)
    (node : t.node? place = some (.file bytes)) : t.read p = .ok bytes := by
  simp [read, here, node, bind, Except.bind, pure, Except.pure]

theorem KeepsFolders.resolve (h : KeepsFolders t u) (hp : t.resolve p = .ok place) :
    u.resolve p = .ok place := by
  rw [resolve_eq_ok_iff] at hp ⊢
  exact ⟨hp.1, h.walk hp.2⟩

theorem isUsable_of_isNotFound {e : FileError} (h : t.resolve p = .error e)
    (he : e.isNotFound = true) : IsUsable p := by
  rw [resolve] at h
  split at h
  · cases h
    cases he
  · next hnull =>
    split at h
    · cases h
      cases he
    · next hlong => exact ⟨by simpa using hnull, Nat.not_lt.1 hlong⟩

theorem makeFolders_eq (h : t.makeFolders p = (u, none)) :
    IsUsable p ∧ t.makeAlong p.start ⟨p.root, []⟩ p.parts = (u, none) := by
  rw [makeFolders] at h
  split at h
  · next hp => exact ⟨(resolve_eq_ok_iff.1 hp).1, h⟩
  · next hp =>
    split at h
    · next he => exact ⟨isUsable_of_isNotFound hp he, h⟩
    · cases h

/-- A path leads to a place where a file is or can be put: its folder is there, and a draft can
stand beside it. -/
structure Ready (t : Tree) (p : Path) (place : List String) : Prop where
  here : t.resolve p = .ok place
  notFolder : t.node? place ≠ some .folder
  parent : IsUsable p.parent
  draft : ∃ beside, t.resolve (draftPath p) = .ok beside

namespace Ready

theorem exists_parts (h : t.Ready p place) : ∃ parts last, p.parts = parts ++ [last] := by
  obtain hnil | ⟨parts, last, hparts⟩ := List.eq_nil_or_concat p.parts
  · obtain ⟨beside, hbeside⟩ := h.draft
    have hstart : place = p.start := by
      have hwalk := (resolve_eq_ok_iff.1 h.here).2
      rw [hnil] at hwalk
      exact (Except.ok.inj hwalk).symm
    have hwalk := (resolve_eq_ok_iff.1 hbeside).2
    rw [draftPath, Path.sibling, hnil] at hwalk
    exact absurd (walk_cons_eq_ok_iff.1 hwalk).1 (hstart ▸ h.notFolder)
  · exact ⟨parts, last, by simpa using hparts⟩

theorem makeFolders (h : t.Ready p place) : t.makeFolders p.parent = (t, none) := by
  obtain ⟨parts, last, hparts⟩ := h.exists_parts
  have hwalk := (resolve_eq_ok_iff.1 h.here).2
  rw [hparts] at hwalk
  obtain ⟨folder, hwalk, hfolder, -⟩ := walk_concat_eq_ok_iff.1 hwalk
  have hparent : p.parent.parts = parts := by simp [Path.parent, hparts]
  have hresolve : t.resolve p.parent = .ok folder :=
    resolve_eq_ok_iff.2 ⟨h.parent, hparent ▸ hwalk⟩
  rw [Tree.makeFolders, hresolve]
  exact makeAlong_eq_self _ (hparent ▸ hwalk) hfolder

theorem write (h : t.Ready p place) (bytes : List UInt8) :
    t.write p bytes = (t.put place (.file bytes), none) := by
  obtain ⟨beside, hbeside⟩ := h.draft
  have hput : t.putFile p bytes = .ok (t.put place (.file bytes)) := by
    simp only [putFile, hbeside, h.here, bind, Except.bind]
    split
    · next hfolder => exact absurd hfolder h.notFolder
    · rfl
  rw [Tree.write, h.makeFolders]
  simp only [hput, orUnchanged]

theorem beginWrite (h : t.Ready p place) : t.beginWrite p = (t, none) := by
  obtain ⟨beside, hbeside⟩ := h.draft
  simp only [Tree.beginWrite, h.makeFolders, hbeside]

theorem mono (h : t.Ready p place) (hkeeps : KeepsFolders t u)
    (hplace : u.node? place ≠ some .folder) : u.Ready p place := by
  obtain ⟨beside, hbeside⟩ := h.draft
  exact ⟨hkeeps.resolve h.here, hplace, h.parent, beside, hkeeps.resolve hbeside⟩

theorem put (h : t.Ready p place) (bytes : List UInt8) :
    (t.put place (.file bytes)).Ready p place := by
  refine h.mono (keepsFolders_put h.notFolder) ?_
  rw [node?_put_self t place _ (isAbove_of_node? h.notFolder)]
  simp

theorem remove (h : t.Ready p place) : (t.remove place).Ready p place := by
  refine h.mono (keepsFolders_remove h.notFolder) ?_
  rw [node?_remove_self (isAbove_of_node? h.notFolder)]
  simp

theorem read_put (h : t.Ready p place) (bytes : List UInt8) :
    (t.put place (.file bytes)).read p = .ok bytes := by
  exact read_of_resolve (h.put bytes).here
    (node?_put_self t place (.file bytes) (isAbove_of_node? h.notFolder))

theorem read_remove (h : t.Ready p place) :
    (t.remove place).read p = .error (.refused .notFound p) := by
  have hnode := node?_remove_self (t := t) (isAbove_of_node? h.notFolder)
  simp [read, h.remove.here, hnode, bind, Except.bind, throw, throwThe, MonadExceptOf.throw]

end Ready

theorem ready_of_write (h : t.write p bytes = (u, none)) :
    ∃ made place, t.makeFolders p.parent = (made, none) ∧ made.Ready p place ∧
      u = made.put place (.file bytes) := by
  rw [write] at h
  split at h
  · next made hmake =>
    cases hdraft : made.resolve (draftPath p) with
    | error e => simp [putFile, hdraft, orUnchanged, bind, Except.bind] at h
    | ok beside =>
      cases hhere : made.resolve p with
      | error e => simp [putFile, hdraft, hhere, orUnchanged, bind, Except.bind] at h
      | ok place =>
        simp only [putFile, hdraft, hhere, bind, Except.bind] at h
        split at h
        · cases h
        · next hplace =>
          cases h
          exact ⟨made, place, hmake, ⟨hhere, hplace, (makeFolders_eq hmake).1, beside, hdraft⟩, rfl⟩
  · next hfail => exact absurd h (by simpa using hfail u)

theorem read_of_write (h : t.write p bytes = (u, none)) : u.read p = .ok bytes := by
  obtain ⟨made, place, -, hready, rfl⟩ := ready_of_write h
  exact hready.read_put bytes

/-- Whether any bytes can be written to a file. -/
def Accepts (t : Tree) (p : Path) : Prop := ∀ bytes, (t.write p bytes).2 = none

theorem Ready.accepts (h : t.Ready p place) : t.Accepts p := fun bytes => by rw [h.write]

theorem Accepts.write (h : t.Accepts p) (bytes : List UInt8) :
    ∃ u, t.write p bytes = (u, none) ∧ u.read p = .ok bytes ∧ u.Accepts p := by
  have hwrite : t.write p bytes = ((t.write p bytes).1, none) := Prod.ext rfl (h bytes)
  obtain ⟨made, place, -, hready, hput⟩ := ready_of_write hwrite
  rw [hput] at hwrite
  exact ⟨_, hwrite, hready.read_put bytes, (hready.put bytes).accepts⟩

theorem Accepts.beginWrite (h : t.Accepts p) :
    ∃ u, t.beginWrite p = (u, none) ∧ u.Accepts p := by
  obtain ⟨made, place, hmake, hready, -⟩ := ready_of_write (Prod.ext rfl (h []))
  obtain ⟨beside, hbeside⟩ := hready.draft
  exact ⟨made, by simp only [Tree.beginWrite, hmake, hbeside], hready.accepts⟩

theorem resolve_draftPath {made : Tree} (hhere : t.resolve p = .ok place)
    (hready : made.Ready p other) : ∃ beside, t.resolve (draftPath p) = .ok beside := by
  obtain ⟨parts, last, hparts⟩ := hready.exists_parts
  obtain ⟨beside, hbeside⟩ := hready.draft
  have hdraft : (draftPath p).parts = parts ++ [p.stem ++ "-xxxxxxxx.tmp"] := by
    simp [draftPath, Path.sibling, hparts]
  obtain ⟨husable, hwalk⟩ := resolve_eq_ok_iff.1 hbeside
  rw [hdraft, walk_concat_eq_ok_iff] at hwalk
  obtain ⟨-, -, -, hshort, -⟩ := hwalk
  have hway := (resolve_eq_ok_iff.1 hhere).2
  rw [hparts, walk_concat_eq_ok_iff] at hway
  obtain ⟨folder, hfolder, hnode, -⟩ := hway
  refine ⟨descend folder (p.stem ++ "-xxxxxxxx.tmp"), resolve_eq_ok_iff.2 ⟨husable, ?_⟩⟩
  rw [hdraft, walk_concat_eq_ok_iff]
  exact ⟨folder, hfolder, hnode, hshort, rfl⟩

theorem Accepts.resolve (h : t.Accepts p) :
    (∃ place, t.Ready p place) ∨ t.resolve p = .error (.refused .notFound p) := by
  obtain ⟨made, place, hmake, hready, -⟩ := ready_of_write (Prod.ext rfl (h []))
  obtain ⟨parts, last, hparts⟩ := hready.exists_parts
  obtain ⟨husable, hway⟩ := resolve_eq_ok_iff.1 hready.here
  rw [hparts, walk_concat_eq_ok_iff] at hway
  obtain ⟨folder, hfolder, hnode, hlast, -⟩ := hway
  obtain ⟨-, halong⟩ := makeFolders_eq hmake
  have hparent : p.parent.parts = parts := by simp [Path.parent, hparts]
  rw [hparent] at halong
  have hkeeps := keeps_makeAlong halong
  have hstart : ∀ bytes, t.node? p.start ≠ some (.file bytes) := by
    intro bytes hfile
    have hsame := (folder_of_walk hfolder hnode).symm.trans (hkeeps _ _ hfile)
    cases hsame
  obtain ⟨other, hother⟩ | hnone := walk_of_makeAlong halong hstart hlast
  · have hhere : t.resolve p = .ok other := resolve_eq_ok_iff.2 ⟨husable, hparts ▸ hother⟩
    have hsame : place = other :=
      Except.ok.inj (hready.here.symm.trans (hkeeps.folders.resolve hhere))
    refine .inl ⟨other, hhere, fun hfolder => hready.notFolder ?_, hready.parent,
      resolve_draftPath hhere hready⟩
    rw [hsame]
    exact hkeeps _ _ hfolder
  · have hstart : p.parent.start = p.start := rfl
    rw [hstart] at hnone
    right
    rw [resolve_of_isUsable husable, hparts, hnone]
    rfl

theorem Accepts.unlink (h : t.Accepts p) :
    ∃ u, t.unlink p = .ok u ∧ u.read p = .error (.refused .notFound p) ∧ u.Accepts p := by
  obtain ⟨place, hready⟩ | hnone := h.resolve
  · cases hnode : t.node? place with
    | none =>
      refine ⟨t, ?_, ?_, h⟩
      · simp [Tree.unlink, hready.here, hnode]
      · simp [read, hready.here, hnode, bind, Except.bind, throw, throwThe, MonadExceptOf.throw]
    | some node =>
      cases node with
      | folder => exact absurd hnode hready.notFolder
      | file bytes =>
        refine ⟨t.remove place, ?_, hready.read_remove, hready.remove.accepts⟩
        simp [Tree.unlink, hready.here, hnode]
  · refine ⟨t, ?_, ?_, h⟩
    · simp [Tree.unlink, hnone, FileError.isNotFound]
    · simp [read, hnone, bind, Except.bind]

theorem ready_empty : empty.Ready ⟨"", ["last.json"]⟩ ["last.json"] := by
  have hdraft : draftPath ⟨"", ["last.json"]⟩ = ⟨"", ["last-xxxxxxxx.tmp"]⟩ := by decide +kernel
  exact
    { here := resolve_eq_ok_iff.2
        ⟨⟨by simp [Path.hasNull], by decide +kernel⟩, rfl⟩
      notFolder := by decide
      parent := ⟨by simp [Path.parent, Path.hasNull], by decide +kernel⟩
      draft := ⟨["last-xxxxxxxx.tmp"], hdraft ▸ resolve_eq_ok_iff.2
        ⟨⟨by simp [Path.hasNull], by decide +kernel⟩, rfl⟩⟩ }

theorem accepts_empty : empty.Accepts ⟨"", ["last.json"]⟩ := ready_empty.accepts

end TapeLab.Tree
