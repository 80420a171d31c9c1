import Mathlib.Data.List.Basic
import AskSql.Json.Printer
import AskSql.Proofs.Schema
import AskSql.Storage.Load

/-! Where the documents of a tenant are read from.  The place that a path leads to, if it leads
anywhere, depends on its text alone (`Place.ofPath`), and a tenant that loads has its data source
and its mappings in the directory that its identifier leads to.  So two tenants share these
documents exactly if their identifiers lead to one place.  Identifiers that name an entry of a
directory never do; of other texts nothing is kept, and `shop`, `./shop` and `shop/` all lead to the
directory of `shop`. -/

namespace AskSql.Storage

namespace FileTree

variable {tree : FileTree} {root : String}

/-! ### Paths as text -/

/-- The place that a part of a path leads to when nothing stands in the way. -/
def Place.go : Place → List Char → Place
  | .outside, _ => .outside
  | .inside path, part =>
    if part = [] ∨ part = ['.'] then .inside path
    else if part = ['.', '.'] then
      if path = [] then .outside else .inside path.dropLast
    else .inside (path ++ [String.ofList part])

/-- The place from which the parts of a path are followed, and the parts.  They start at the root of
the tree if the path goes on from there, and outside of the tree otherwise. -/
def start (root path : List Char) : Place × List (List Char) :=
  match root.isPrefixOf? path with
  | some [] => (.inside [], [])
  | some ('/' :: rest) => (.inside [], rest.splitOn '/')
  | _ => (.outside, path.splitOn '/')

/-- The place that a path leads to when nothing stands in the way. -/
def Place.ofPath (root path : List Char) : Place :=
  (start root path).2.foldl Place.go (start root path).1

/-- The place that a path leads to in a tree. -/
def reach? (tree : FileTree) (root path : String) : Option Place :=
  (start root.toList path.toList).2.foldlM (tree.step ·) (start root.toList path.toList).1

theorem foldl_go_outside (parts : List (List Char)) :
    parts.foldl Place.go .outside = .outside := by
  induction parts with
  | nil => rfl
  | cons part parts ih => exact ih

/-- A step of a walk goes where its part leads. -/
theorem go_of_step {place next : Place} {part : List Char} (h : tree.step place part = some next) :
    place.go part = next := by
  unfold step at h
  split at h
  · cases h
  cases place with
  | outside => grind [Place.go]
  | inside path => cases path <;> grind [Place.go]

theorem foldl_go_of_foldlM {parts : List (List Char)} {place last : Place}
    (h : parts.foldlM (tree.step ·) place = some last) : parts.foldl Place.go place = last := by
  induction parts generalizing place with
  | nil => exact Option.some.inj h
  | cons part parts ih =>
    rw [List.foldlM_cons] at h
    obtain ⟨next, hnext, hrest⟩ := Option.bind_eq_some_iff.1 h
    rw [List.foldl_cons, go_of_step hnext]
    exact ih hrest

/-- Where a walk arrives is told by the path. -/
theorem ofPath_of_reach? {path : String} {place : Place}
    (h : tree.reach? root path = some place) : Place.ofPath root.toList path.toList = place :=
  foldl_go_of_foldlM h

/-- A file is what a walk arrives at, below the root. -/
theorem inside_of_walk {place : Place} {path : List Char} {content : String}
    (h : tree.walk place path = .file content) :
    ∃ found, (path.splitOn '/').foldlM (tree.step ·) place = some (.inside found) ∧
      tree.node found = .file content := by
  unfold walk at h
  split at h
  · next last hlast =>
    cases last with
    | outside => cases h
    | inside found => exact ⟨found, hlast, h⟩
  · cases h

/-- A path that neither is that of the root nor goes on from it starts outside of the tree. -/
theorem start_outside {root path : List Char} (hroot : root.isPrefixOf? path ≠ some [])
    (hslash : ∀ rest, root.isPrefixOf? path ≠ some ('/' :: rest)) :
    start root path = (.outside, path.splitOn '/') := by
  unfold start
  split
  · contradiction
  · exact absurd ‹_› (hslash _)
  · rfl

theorem reach?_of_file {path content : String} (h : tree.files root path = .file content) :
    ∃ found, tree.reach? root path = some (.inside found) ∧ tree.node found = .file content := by
  unfold files at h
  split at h
  · cases h
  · next rest hfront =>
    have hstart : start root.toList path.toList = (.inside [], rest.splitOn '/') := by
      simp [start, hfront]
    rw [reach?, hstart]
    exact inside_of_walk h
  · next hroot hslash =>
    rw [reach?, start_outside hroot hslash]
    exact inside_of_walk h

/-- The root itself is no file. -/
theorem ne_root_of_file {path content : String} (h : tree.files root path = .file content) :
    path ≠ root := by
  rintro rfl
  have hself : path.toList.isPrefixOf? path.toList = some [] :=
    List.isPrefixOf?_eq_some_iff_append_eq.2 (List.append_nil _)
  simp [files, hself] at h

/-! ### The last part of a path -/

section LastPart

variable {root dir name rest : List Char} {found up : List String}

theorem start_self (root : List Char) : start root root = (.inside [], []) := by
  have hfront : root.isPrefixOf? root = some [] :=
    List.isPrefixOf?_eq_some_iff_append_eq.2 (List.append_nil _)
  rw [start, hfront]

theorem start_below (root rest : List Char) :
    start root (root ++ '/' :: rest) = (.inside [], rest.splitOn '/') := by
  have hfront : root.isPrefixOf? (root ++ '/' :: rest) = some ('/' :: rest) :=
    List.isPrefixOf?_eq_some_iff_append_eq.2 rfl
  simp [start, hfront]

/-- A path that leads into the tree goes on from its root. -/
theorem eq_or_below_of_ofPath (h : Place.ofPath root dir = .inside up) :
    dir = root ∨ ∃ rest, dir = root ++ '/' :: rest := by
  unfold Place.ofPath start at h
  split at h
  · next hfront =>
    rw [List.isPrefixOf?_eq_some_iff_append_eq] at hfront
    exact Or.inl (by simpa using hfront.symm)
  · next rest hfront =>
    rw [List.isPrefixOf?_eq_some_iff_append_eq] at hfront
    exact Or.inr ⟨rest, hfront.symm⟩
  · rw [foldl_go_outside] at h
    cases h

/-- A path that leads into the tree can be continued. -/
theorem ofPath_append (h : Place.ofPath root dir = .inside up) (rest : List Char) :
    Place.ofPath root (dir ++ '/' :: rest) = (rest.splitOn '/').foldl Place.go (.inside up) := by
  rcases eq_or_below_of_ofPath h with rfl | ⟨before, rfl⟩
  · rw [Place.ofPath, start_self] at h
    rw [Place.ofPath, start_below, ← h]
    rfl
  · rw [Place.ofPath, start_below] at h
    rw [List.append_assoc, List.cons_append, Place.ofPath, start_below,
      List.splitOn_append_cons_self, List.foldl_append, h]

/-- A slash at its end does not change where a path leads. -/
theorem ofPath_slash (h : Place.ofPath root dir = .inside up) :
    Place.ofPath root (dir ++ ['/']) = .inside up := by
  rw [ofPath_append h []]
  simp [Place.go]

/-- Two cuts of a path, one of them at its last slash. -/
theorem last_slash (hname : '/' ∉ name) (h : dir ++ '/' :: name = root ++ '/' :: rest) :
    dir = root ∨ ∃ before, dir = root ++ '/' :: before ∧ rest = before ++ '/' :: name := by
  rcases List.append_eq_append_iff.1 h with ⟨between, rfl, hrest⟩ | ⟨between, rfl, hrest⟩
  · cases between with
    | nil => exact Or.inl (List.append_nil _).symm
    | cons c between =>
      obtain ⟨-, rfl⟩ := List.cons.inj hrest
      exact absurd (by simp) hname
  · cases between with
    | nil => exact Or.inl (List.append_nil _)
    | cons c between =>
      obtain ⟨rfl, rfl⟩ := List.cons.inj hrest
      exact Or.inr ⟨between, rfl, rfl⟩

/-- A path into the tree that is not its root leads into the tree without its last part as well. -/
theorem ofPath_of_last (hname : '/' ∉ name) (hroot : dir ++ '/' :: name ≠ root)
    (h : Place.ofPath root (dir ++ '/' :: name) = .inside found) :
    ∃ up, Place.ofPath root dir = .inside up := by
  obtain ⟨rest, hrest⟩ := (eq_or_below_of_ofPath h).resolve_left hroot
  rcases last_slash hname hrest with rfl | ⟨before, rfl, rfl⟩
  · exact ⟨[], by rw [Place.ofPath, start_self, List.foldl_nil]⟩
  · cases hplace : Place.ofPath root (root ++ '/' :: before) with
    | inside up => exact ⟨up, rfl⟩
    | outside =>
      rw [Place.ofPath, start_below] at hplace
      rw [hrest, Place.ofPath, start_below, List.splitOn_append_cons_self, List.foldl_append,
        hplace, foldl_go_outside] at h
      cases h

end LastPart

/-! ### A part that stays -/

theorem walk_append (tree : FileTree) (place : Place) (before rest : List Char) :
    tree.walk place (before ++ '/' :: rest) =
      (((before.splitOn '/').foldlM (tree.step ·) place).map (tree.walk · rest)).getD .missing := by
  rw [walk, List.splitOn_append_cons_self, List.foldlM_append]
  cases (before.splitOn '/').foldlM (tree.step ·) place <;> rfl

theorem walk_dot (tree : FileTree) (place : Place) (rest : List Char) :
    tree.walk place ('.' :: '/' :: rest) = tree.walk place rest := by
  have hparts : ('.' :: '/' :: rest).splitOn '/' = ['.'] :: rest.splitOn '/' :=
    List.splitOn_append_cons_self_of_not_mem (show '/' ∉ ['.'] by decide) rest
  obtain ⟨part, parts, hrest⟩ := List.exists_cons_of_ne_nil (List.splitOn_ne_nil '/' rest)
  rw [walk, walk, hparts, hrest, List.foldlM_cons, List.foldlM_cons]
  by_cases hplace : tree.state place = .directory <;> simp [step, hplace]

theorem files_below {path : String} {rest : List Char}
    (h : path.toList = root.toList ++ '/' :: rest) :
    tree.files root path = tree.walk (.inside []) rest := by
  have hfront : root.toList.isPrefixOf? path.toList = some ('/' :: rest) :=
    List.isPrefixOf?_eq_some_iff_append_eq.2 h.symm
  simp [files, hfront]

/-- A dot behind a directory of the tree does not change what is found. -/
theorem files_dot {dir rest : List Char} {up : List String} {path path' : String}
    (hdir : Place.ofPath root.toList dir = .inside up) (hpath : path.toList = dir ++ '/' :: rest)
    (hpath' : path'.toList = dir ++ '/' :: '.' :: '/' :: rest) :
    tree.files root path' = tree.files root path := by
  rcases eq_or_below_of_ofPath hdir with rfl | ⟨before, rfl⟩
  · rw [files_below hpath, files_below hpath', walk_dot]
  · rw [List.append_assoc, List.cons_append] at hpath hpath'
    rw [files_below hpath, files_below hpath', walk_append, walk_append]
    simp only [walk_dot]

end FileTree

open FileTree

/-- A text that names an entry of a directory: it is not empty, has no slash, and stands neither for
the directory itself nor for the one above. -/
def IsEntry (name : String) : Prop :=
  name ≠ "" ∧ '/' ∉ name.toList ∧ name ≠ "." ∧ name ≠ ".."

instance : DecidablePred IsEntry := fun _ => inferInstanceAs (Decidable (_ ∧ _))

theorem IsEntry.head?_ne {name : String} (h : IsEntry name) : name.toList.head? ≠ some '/' :=
  fun hslash => h.2.1 (List.mem_of_head? hslash)

theorem IsEntry.go {name : String} (h : IsEntry name) (path : List String) :
    Place.go (.inside path) name.toList = .inside (path ++ [name]) := by
  obtain ⟨hempty, -, hdot, hdots⟩ := h
  have hdot : name.toList ≠ ['.'] := fun heq => hdot (String.toList_inj.1 heq)
  have hdots : name.toList ≠ ['.', '.'] := fun heq => hdots (String.toList_inj.1 heq)
  simp [Place.go, hempty, hdot, hdots]

/-- An entry of a directory in the tree lies in that directory. -/
theorem IsEntry.ofPath {name : String} (h : IsEntry name) {root dir : List Char} {up : List String}
    (hdir : Place.ofPath root dir = .inside up) :
    Place.ofPath root (dir ++ '/' :: name.toList) = .inside (up ++ [name]) := by
  rw [ofPath_append hdir, List.splitOn_eq_singleton h.2.1, List.foldl_cons, List.foldl_nil, h.go]

/-! ### Joined paths -/

/-- A name joined to a directory stands behind one slash, which the directory may end with. -/
theorem toList_join {dir name : String} (hdir : dir ≠ "") (hname : name.toList.head? ≠ some '/') :
    ∃ stem, (dir.toList = stem ∨ dir.toList = stem ++ ['/']) ∧
      (join dir name).toList = stem ++ '/' :: name.toList := by
  have hempty : dir.isEmpty = false := by simpa using hdir
  rw [join, if_neg hname, hempty, Bool.false_or]
  by_cases hslash : dir.toList.getLast? = some '/'
  · obtain ⟨stem, hstem⟩ := List.getLast?_eq_some_iff.1 hslash
    exact ⟨stem, Or.inr hstem, by simp [hstem]⟩
  · exact ⟨dir.toList, Or.inl rfl, by simp [hslash]⟩

theorem join_ne_empty {dir name : String} (h : dir ≠ "" ∨ name ≠ "") : join dir name ≠ "" := by
  rw [join]
  split
  · next hslash =>
    rintro rfl
    cases hslash
  · split
    · simpa [Classical.or_iff_not_imp_left] using h
    · simp

theorem clientDirectory_ne_empty (root tenant : String) : clientDirectory root tenant ≠ "" :=
  join_ne_empty (Or.inl (join_ne_empty (Or.inr (by decide))))

variable {tree : FileTree} {base root tenant : String}

/-- A file in a directory lies where the directory's path leads. -/
theorem reach?_join {dir name content : String} (hdir : dir ≠ "") (hname : IsEntry name)
    (h : tree.files base (join dir name) = .file content) :
    ∃ up, Place.ofPath base.toList dir.toList = .inside up ∧
      tree.reach? base (join dir name) = some (.inside (up ++ [name])) := by
  obtain ⟨stem, hstem, hjoin⟩ := toList_join hdir hname.head?_ne
  obtain ⟨found, hreach, -⟩ := reach?_of_file h
  have hfound := ofPath_of_reach? hreach
  have hroot : stem ++ '/' :: name.toList ≠ base.toList := fun heq =>
    ne_root_of_file h (String.toList_inj.1 (hjoin.trans heq))
  rw [hjoin] at hfound
  obtain ⟨up, hup⟩ := ofPath_of_last hname.2.1 hroot hfound
  rw [hname.ofPath hup] at hfound
  refine ⟨up, ?_, hreach.trans (congrArg some hfound.symm)⟩
  rcases hstem with hstem | hstem
  · rwa [hstem]
  · rw [hstem]
    exact ofPath_slash hup

/-! ### Tenants -/

/-- The documents of a tenant are read from a directory of the tree. -/
structure ReadsFrom (tree : FileTree) (base root tenant : String) (dir : List String) : Prop where
  datasource :
    tree.reach? base (datasourcePath root tenant) = some (.inside (dir ++ ["datasource.json"]))
  mappings : tree.reach? base (mappingsPath root tenant) = some (.inside (dir ++ ["mappings.json"]))

/-- A document that is read is the meaning of a file. -/
theorem readDocument_eq_ok_iff {α : Type} {files : Files} {decode : Json.Decoder α} {path : String}
    {document : α} :
    readDocument files decode path = .ok document ↔
      ∃ content, files path = .file content ∧
        (Json.Form.parse? content >>= decode) = some document := by
  constructor
  · intro h
    unfold readDocument at h
    split at h
    · cases h
    · cases h
    · cases h
    next content hfile =>
    split at h
    · next hdocument =>
      exact ⟨content, hfile, hdocument.trans (congrArg some (Except.ok.inj h))⟩
    · cases h
  · rintro ⟨content, hfile, hdocument⟩
    simp only [readDocument, hfile, hdocument]

/-- What it takes for a tenant to load: its directory, its documents, and a configuration without
faults. -/
theorem loadTenant_eq_ok_iff {files : Files} {config : TenantConfig} :
    loadTenant files root tenant = .ok config ↔
      config.tenant = tenant ∧ files (clientDirectory root tenant) = .directory ∧
        readDocument files Ontology.decode (ontologyPath root) = .ok config.ontology ∧
        readDocument files Functions.decode (functionsPath root) = .ok config.functions ∧
        readDocument files Datasource.decode (datasourcePath root tenant) = .ok config.datasource ∧
        readDocument files Mappings.decode (mappingsPath root tenant) = .ok config.mappings ∧
        config.faults = [] := by
  constructor
  · intro h
    simp only [loadTenant, bind, Except.bind] at h
    split at h
    · cases h
    next hdirectory =>
    split at h
    · cases h
    next ontology hontology =>
    split at h
    · cases h
    next functions hfunctions =>
    split at h
    · cases h
    next datasource hdatasource =>
    split at h
    · cases h
    next mappings hmappings =>
    split at h
    · cases h
    next schema hschema =>
    obtain rfl := Except.ok.inj h
    have hvalid := schema.valid
    rw [Schema.config_of_ofConfig hschema] at hvalid ⊢
    exact ⟨rfl, by_contra fun h => hdirectory h, hontology, hfunctions, hdatasource, hmappings,
      hvalid⟩
  · rintro ⟨rfl, hdirectory, hontology, hfunctions, hdatasource, hmappings, hvalid⟩
    have hschema := Schema.ofConfig_config ⟨config, hvalid⟩
    simp only [loadTenant, bind, Except.bind, hdirectory, hontology, hfunctions, hdatasource,
      hmappings]
    simp [pure, Except.pure, hschema]

/-- A tenant that loads has its own documents in the directory that its identifier leads to. -/
theorem readsFrom_of_loadTenant {config : TenantConfig}
    (h : loadTenant (tree.files base) root tenant = .ok config) :
    ∃ dir, Place.ofPath base.toList (clientDirectory root tenant).toList = .inside dir ∧
      ReadsFrom tree base root tenant dir := by
  obtain ⟨-, -, -, -, hdatasource, hmappings, -⟩ := loadTenant_eq_ok_iff.1 h
  obtain ⟨_, hdatasource, -⟩ := readDocument_eq_ok_iff.1 hdatasource
  obtain ⟨_, hmappings, -⟩ := readDocument_eq_ok_iff.1 hmappings
  have hdirectory := clientDirectory_ne_empty root tenant
  obtain ⟨dir, hdir, hdatasource⟩ := reach?_join hdirectory (by decide) hdatasource
  obtain ⟨dir', hdir', hmappings⟩ := reach?_join hdirectory (by decide) hmappings
  obtain rfl := Place.inside.inj (hdir.symm.trans hdir')
  exact ⟨dir, hdir, hdatasource, hmappings⟩

/-- The directory of a tenant whose identifier does not start with a slash. -/
theorem toList_clientDirectory (h : tenant.toList.head? ≠ some '/') :
    (clientDirectory root tenant).toList =
      (join root "clients").toList ++ '/' :: tenant.toList := by
  have hlast : (join root "clients").toList.getLast? ≠ some '/' := by
    unfold join
    split
    · decide
    split <;> simp
  have hempty : join root "clients" ≠ "" := join_ne_empty (Or.inr (by decide))
  rw [clientDirectory, join, if_neg h, if_neg (by simpa [hempty] using hlast)]
  simp

/-- A path in the directory of such a tenant. -/
theorem toList_join_clientDirectory {name : String} (h : tenant.toList.head? ≠ some '/')
    (hname : name.toList.head? ≠ some '/') :
    (join (clientDirectory root tenant) name).toList =
      (join root "clients").toList ++ '/' ::
        (tenant.toList ++
          if ('/' :: tenant.toList).getLast? = some '/' then name.toList
          else '/' :: name.toList) := by
  have hlast : (clientDirectory root tenant).toList.getLast? = ('/' :: tenant.toList).getLast? := by
    rw [toList_clientDirectory h, List.getLast?_append_of_ne_nil _ (List.cons_ne_nil _ _)]
  have hempty : (clientDirectory root tenant).isEmpty = false := by
    simpa using clientDirectory_ne_empty root tenant
  rw [join, if_neg hname, hempty, Bool.false_or, hlast]
  by_cases hslash : ('/' :: tenant.toList).getLast? = some '/' <;>
    simp [hslash, toList_clientDirectory h]

/-- A tenant that loads from the clients' directory loads under a second identifier, too. -/
theorem loadTenant_dot {clients : List String} {config : TenantConfig}
    (hclients : Place.ofPath base.toList (join root "clients").toList = .inside clients)
    (hrelative : tenant.toList.head? ≠ some '/')
    (h : loadTenant (tree.files base) root tenant = .ok config) :
    loadTenant (tree.files base) root ("./" ++ tenant) =
      .ok { config with tenant := "./" ++ tenant } := by
  have hdot : ("./" ++ tenant).toList = '.' :: '/' :: tenant.toList := String.toList_append
  have hhead : ("./" ++ tenant).toList.head? ≠ some '/' := by simp [hdot]
  have hdirectory : tree.files base (clientDirectory root ("./" ++ tenant)) =
      tree.files base (clientDirectory root tenant) := by
    refine files_dot hclients (toList_clientDirectory hrelative) ?_
    rw [toList_clientDirectory hhead, hdot]
  have hdocument : ∀ name : String, name.toList.head? ≠ some '/' →
      tree.files base (join (clientDirectory root ("./" ++ tenant)) name) =
        tree.files base (join (clientDirectory root tenant) name) := by
    intro name hname
    refine files_dot hclients (toList_join_clientDirectory hrelative hname) ?_
    rw [toList_join_clientDirectory hhead hname, hdot]
    simp
  have hdatasource := hdocument "datasource.json" (by decide)
  have hmappings := hdocument "mappings.json" (by decide)
  simp only [loadTenant_eq_ok_iff, readDocument_eq_ok_iff, hdirectory, datasourcePath,
    hdatasource, mappingsPath, hmappings] at h ⊢
  exact ⟨trivial, h.2⟩

/-- An identifier that names an entry leads to that entry of the clients' directory, unless the tree
holds no more than that entry. -/
theorem IsEntry.clientDirectory (h : IsEntry tenant) {dir : List String}
    (hdir : Place.ofPath base.toList (clientDirectory root tenant).toList = .inside dir) :
    (clientDirectory root tenant).toList = base.toList ∧ dir = [] ∨
      ∃ clients, Place.ofPath base.toList (join root "clients").toList = .inside clients ∧
        dir = clients ++ [tenant] := by
  have hpath : (Storage.clientDirectory root tenant).toList = _ := toList_clientDirectory h.head?_ne
  by_cases hbase : (Storage.clientDirectory root tenant).toList = base.toList
  · rw [hbase, Place.ofPath, start_self] at hdir
    exact Or.inl ⟨hbase, (Place.inside.inj hdir).symm⟩
  · rw [hpath] at hdir hbase
    obtain ⟨clients, hclients⟩ := ofPath_of_last h.2.1 hbase hdir
    rw [h.ofPath hclients] at hdir
    exact Or.inr ⟨clients, hclients, (Place.inside.inj hdir).symm⟩

/-- Identifiers that name entries lead to different directories. -/
theorem IsEntry.eq_of_ofPath {other : String} {dir : List String} (h : IsEntry tenant)
    (hother : IsEntry other)
    (hdir : Place.ofPath base.toList (Storage.clientDirectory root tenant).toList = .inside dir)
    (hdir' : Place.ofPath base.toList (Storage.clientDirectory root other).toList = .inside dir) :
    tenant = other := by
  rcases h.clientDirectory hdir with ⟨hbase, rfl⟩ | ⟨clients, hclients, rfl⟩ <;>
    rcases hother.clientDirectory hdir' with ⟨hbase', heq⟩ | ⟨clients', hclients', heq⟩
  · have hpath := hbase.trans hbase'.symm
    rw [toList_clientDirectory h.head?_ne, toList_clientDirectory hother.head?_ne] at hpath
    exact String.toList_inj.1 (List.cons.inj (List.append_cancel_left hpath)).2
  · simp at heq
  · simp at heq
  · obtain rfl := Place.inside.inj (hclients.symm.trans hclients')
    simpa using heq

/-- Two tenants that load read their documents from the places that their identifiers lead to: from
one directory exactly if these places are one.  Identifiers that name entries are entries of the
clients' directory, and different ones are read from different directories; but each has a second
identifier that loads. -/
theorem readsFrom_eq_iff (tree : FileTree) (base root first second : String)
    (hfirst : (loadTenant (tree.files base) root first).isOk = true)
    (hsecond : (loadTenant (tree.files base) root second).isOk = true) :
    ∃ dir dir', ReadsFrom tree base root first dir ∧ ReadsFrom tree base root second dir' ∧
      (dir = dir' ↔
        Place.ofPath base.toList (clientDirectory root first).toList =
          Place.ofPath base.toList (clientDirectory root second).toList) ∧
      (IsEntry first → IsEntry second → (dir = dir' ↔ first = second)) ∧
      ∀ clients, Place.ofPath base.toList (join root "clients").toList = .inside clients →
        IsEntry first → dir = clients ++ [first] ∧
          (loadTenant (tree.files base) root ("./" ++ first)).isOk = true := by
  cases hload : loadTenant (tree.files base) root first with
  | error fault =>
    rw [hload] at hfirst
    cases hfirst
  | ok config =>
    cases hload' : loadTenant (tree.files base) root second with
    | error fault =>
      rw [hload'] at hsecond
      cases hsecond
    | ok config' =>
      obtain ⟨dir, hdir, hreads⟩ := readsFrom_of_loadTenant hload
      obtain ⟨dir', hdir', hreads'⟩ := readsFrom_of_loadTenant hload'
      refine ⟨dir, dir', hreads, hreads', ?_, fun hentry hentry' => ⟨?_, ?_⟩, ?_⟩
      · rw [hdir, hdir', Place.inside.injEq]
      · rintro rfl
        exact hentry.eq_of_ofPath hentry' hdir hdir'
      · rintro rfl
        exact Place.inside.inj (hdir.symm.trans hdir')
      · intro clients hclients hentry
        refine ⟨?_, ?_⟩
        · rw [toList_clientDirectory hentry.head?_ne, hentry.ofPath hclients] at hdir
          exact (Place.inside.inj hdir).symm
        · rw [loadTenant_dot hclients hentry.head?_ne hload]
          rfl

/-- The files of a configuration with one client. -/
def shopTree : FileTree :=
  let ontology : Json := .obj [("entities", .obj [("item", .obj [
    ("display_name", .str ""), ("vocabulary", .arr [.str "item"]),
    ("attributes", .obj [("id", .obj [("type", .str "integer"),
      ("vocabulary", .arr [.str "id"]), ("primary_key", .bool true)])])])])]
  let functions : Json := .obj [("aggregations", .obj [("max", .obj [
    ("sql_function", .str "MAX"), ("vocabulary", .arr [.str "top"]),
    ("return_type", .str "integer")])])]
  let datasource : Json := .obj [("client_id", .str "shop"), ("database_type", .str ""),
    ("connection_string", .str "db"), ("table_mappings", .obj [("item", .obj [
      ("physical_table", .str "Item"), ("columns", .obj [("id", .str "Id")])])])]
  let mappings : Json := .obj [("client_id", .str "shop")]
  .ofPaths
    [("shared/ontology.json", ontology.compact), ("shared/functions.json", functions.compact),
      ("clients/shop/datasource.json", datasource.compact),
      ("clients/shop/mappings.json", mappings.compact)] []

/-- Two identifiers of one client: its documents are read for either, from one directory. -/
theorem readsFrom_shop :
    (loadTenant (shopTree.files "conf") "conf" "shop").isOk = true ∧
      (loadTenant (shopTree.files "conf") "conf" "./shop").isOk = true ∧
      ∃ dir, ReadsFrom shopTree "conf" "conf" "shop" dir ∧
        ReadsFrom shopTree "conf" "conf" "./shop" dir ∧ dir = ["clients", "shop"] := by
  have hclients :
      Place.ofPath "conf".toList (join "conf" "clients").toList = .inside ["clients"] := by
    decide +kernel
  have hshop : (loadTenant (shopTree.files "conf") "conf" "shop").isOk = true := by decide +kernel
  have hdot : (loadTenant (shopTree.files "conf") "conf" "./shop").isOk = true := by
    cases hload : loadTenant (shopTree.files "conf") "conf" "shop" with
    | error fault =>
      rw [hload] at hshop
      cases hshop
    | ok config =>
      have hdot := loadTenant_dot hclients (by decide) hload
      rw [show "./shop" = "./" ++ "shop" from rfl, hdot]
      rfl
  obtain ⟨dir, dir', hreads, hreads', hsame, -, hentry⟩ :=
    readsFrom_eq_iff shopTree "conf" "conf" "shop" "./shop" hshop hdot
  obtain rfl := hsame.2 (by decide +kernel)
  exact ⟨hshop, hdot, dir, hreads, hreads', (hentry ["clients"] hclients (by decide)).1⟩

end AskSql.Storage
