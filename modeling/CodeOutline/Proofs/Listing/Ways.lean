import CodeOutline.Proofs.Listing.Discovered
import CodeOutline.Proofs.Path.Names

/-! # The ways a walk takes

A walk goes down by names and asks the ignore rules about each of them.  `Way` is a way down to a file that
no rule stops, and the walk finds exactly the files at the ends of such ways (`mem_filesBelow_iff`).

Where no folder below the root has rules of its own, the rules that are asked stay the same all the way
down.  Then a way is nothing but names that lead through folders to a file (`Leads`), none of which is
ignored (`way_iff`).
-/

namespace CodeOutline

open scoped List

/-! ## Names on a disk -/

namespace Disk

theorem nameIn?_append (folder : Place) (name : String) :
    nameIn? folder (folder ++ [name]) = some name := by
  induction folder with
  | nil => rfl
  | cons above below ih => simpa [nameIn?] using ih

theorem mem_names_of_item? {disk : Disk} {folder : Place} {name : String} {item : Item}
    (h : disk.item? (folder ++ [name]) = some item) : name ∈ disk.names folder := by
  obtain ⟨entry, hentry, hkey⟩ := List.mem_map.mp (mem_keys_of_item? (by simp) h)
  refine List.mem_mergeSort.mpr (List.mem_eraseDups.mpr (List.mem_filterMap.mpr ⟨entry, hentry, ?_⟩))
  rw [hkey, nameIn?_append]

/-- The names lead from a folder through folders to a file. -/
def Leads (disk : Disk) : Place → List String → Prop
  | _, [] => False
  | place, [name] => ∃ content, disk.item? (place ++ [name]) = some (.file content)
  | place, name :: names =>
    disk.item? (place ++ [name]) = some .folder ∧ Leads disk (place ++ [name]) names

theorem leads_cons {disk : Disk} {place : Place} {name : String} {names : List String} (hne : names ≠ []) :
    disk.Leads place (name :: names) ↔
      disk.item? (place ++ [name]) = some .folder ∧ disk.Leads (place ++ [name]) names := by
  cases names with
  | nil => exact absurd rfl hne
  | cons next rest => exact Iff.rfl

section Leading

variable {disk : Disk} {place : Place} {names : List String}

theorem Leads.ne_nil (h : disk.Leads place names) : names ≠ [] := by
  rintro rfl
  exact h

theorem Leads.isName (h : disk.Leads place names) :
    ∀ name ∈ names, Path.IsName name := by
  fun_induction Leads disk place names with
  | case1 => exact h.elim
  | case2 place name =>
    obtain ⟨content, hitem⟩ := h
    simpa using (isName_of_mem_names (mem_names_of_item? hitem)).1
  | case3 place name names hne ih =>
    obtain ⟨hitem, hrest⟩ := h
    exact List.forall_mem_cons.mpr ⟨(isName_of_mem_names (mem_names_of_item? hitem)).1, ih hrest⟩

/-- Paths of names on the disk are the same whether the first name is put behind the path alone or not. -/
theorem Leads.join_join {name : String} {front : List String} (h : disk.Leads place (name :: names))
    (path : String) (hfront : front <+: names) (hne : front ≠ []) :
    Path.join (Path.join path name) (Path.ofNames front) =
      Path.join path (Path.ofNames (name :: front)) := by
  obtain ⟨hname, hnames⟩ := List.forall_mem_cons.mp h.isName
  exact Path.join_join_ofNames path hname (fun other hother => hnames other (hfront.subset hother)) hne

theorem Leads.item? (h : disk.Leads place names) :
    ∃ content, disk.item? (place ++ names) = some (.file content) := by
  fun_induction Leads disk place names with
  | case1 => exact h.elim
  | case2 place name => exact h
  | case3 place name names hne ih => simpa using ih h.2

theorem Leads.mem_keys (h : disk.Leads place names) {n : Nat} (hn : n < names.length) :
    place ++ names.take (n + 1) ∈ disk.entries.map Prod.fst := by
  fun_induction Leads disk place names generalizing n with
  | case1 => exact h.elim
  | case2 place name =>
    obtain ⟨content, hitem⟩ := h
    simpa using mem_keys_of_item? (by simp) hitem
  | case3 place name names hne ih =>
    cases n with
    | zero => simpa using mem_keys_of_item? (by simp) h.1
    | succ n => simpa using ih h.2 (by simpa using hn)

/-- There is an entry of the disk for every name. -/
theorem Leads.length_le (h : disk.Leads place names) : names.length ≤ disk.entries.length := by
  have hdistinct : ((List.range names.length).map fun n => place ++ names.take (n + 1)).Nodup := by
    -- The places on the way differ in their lengths.
    refine List.Nodup.map_on (fun n hn m hm heq => ?_) List.nodup_range
    have hlength := congrArg List.length heq
    simp only [List.length_append, List.length_take, List.mem_range] at hlength hn hm
    omega
  have hsub : ((List.range names.length).map fun n => place ++ names.take (n + 1)) ⊆
      disk.entries.map Prod.fst := by
    intro key hkey
    obtain ⟨n, hn, rfl⟩ := List.mem_map.mp hkey
    exact h.mem_keys (List.mem_range.mp hn)
  simpa using hdistinct.length_le_of_subset hsub

end Leading

end Disk

/-! ## Ways down -/

namespace Walk

/-- The names lead from a folder to a file, and the walk passes over none of them. -/
inductive Way (disk : Disk) (here : Place) : Scope → String → Place → List String → Prop where
  | file {scope : Scope} {path name : String} {place : Place} {content : ByteArray} :
      disk.item? (place ++ [name]) = some (.file content) →
      scope.skips (Path.join path name) name false = false → Way disk here scope path place [name]
  | folder {scope : Scope} {path name : String} {place : Place} {names : List String} :
      disk.item? (place ++ [name]) = some .folder →
      scope.skips (Path.join path name) name true = false →
      Way disk here (scope.enter disk here (Path.join path name) (place ++ [name])) (Path.join path name)
        (place ++ [name]) names →
      Way disk here scope path place (name :: names)

variable {disk : Disk} {here place : Place} {scope : Scope} {path file : String} {names : List String}

theorem Way.leads (h : Way disk here scope path place names) : disk.Leads place names := by
  induction h with
  | file hitem _ => exact ⟨_, hitem⟩
  | folder hitem _ _ ih => exact (Disk.leads_cons ih.ne_nil).mpr ⟨hitem, ih⟩

theorem mem_filesAt_iff {depth : Nat} {name : String} :
    file ∈ filesAt disk here depth scope path place name ↔
      ((∃ content, disk.item? (place ++ [name]) = some (.file content)) ∧
        scope.skips (Path.join path name) name false = false ∧ file = Path.join path name) ∨
      (disk.item? (place ++ [name]) = some .folder ∧
        scope.skips (Path.join path name) name true = false ∧
        file ∈ filesBelow disk here depth (scope.enter disk here (Path.join path name) (place ++ [name]))
          (Path.join path name) (place ++ [name])) := by
  unfold filesAt
  split
  · simp_all
  · rename_i content hitem
    simp [hitem]
  · rename_i hitem
    simp [hitem]

/-- The walk finds the files at the ends of the ways that are short enough. -/
theorem mem_filesBelow_iff {depth : Nat} :
    file ∈ filesBelow disk here depth scope path place ↔
      ∃ names, Way disk here scope path place names ∧ names.length ≤ depth ∧
        file = Path.join path (Path.ofNames names) := by
  induction depth generalizing scope path place with
  | zero =>
    -- Nothing is found at depth 0, and a way has a name.
    constructor
    · intro h
      cases h
    · rintro ⟨names, hway, hlength, -⟩
      exact absurd (List.length_eq_zero_iff.mp (Nat.le_zero.mp hlength)) hway.leads.ne_nil
  | succ depth ih =>
    rw [filesBelow_succ, List.mem_flatMap]
    simp only [mem_filesAt_iff, ih]
    constructor
    · rintro ⟨name, -, ⟨⟨content, hitem⟩, hpasses, rfl⟩ | ⟨hitem, hpasses, names, hway, hlength, rfl⟩⟩
      · exact ⟨[name], .file hitem hpasses, by simp, by rw [Path.ofNames_singleton]⟩
      · have hlonger : Way disk here scope path place (name :: names) := .folder hitem hpasses hway
        exact ⟨name :: names, hlonger, by simpa using hlength,
          hlonger.leads.join_join path List.prefix_rfl hway.leads.ne_nil⟩
    · rintro ⟨names, hway, hlength, rfl⟩
      cases hway with
      | @file _ _ name _ content hitem hpasses =>
        exact ⟨name, Disk.mem_names_of_item? hitem,
          .inl ⟨⟨content, hitem⟩, hpasses, by rw [Path.ofNames_singleton]⟩⟩
      | @folder _ _ name _ names hitem hpasses hway =>
        have hlonger : Way disk here scope path place (name :: names) := .folder hitem hpasses hway
        exact ⟨name, Disk.mem_names_of_item? hitem, .inr ⟨hitem, hpasses, names, hway,
          by simpa using hlength, (hlonger.leads.join_join path List.prefix_rfl hway.leads.ne_nil).symm⟩⟩

theorem descent_of_leads (hfolder : disk.item? place = some .folder)
    (h : disk.Leads place names) :
    Descent disk path place names (Path.join path (Path.ofNames names)) := by
  induction names generalizing path place with
  | nil => exact absurd rfl h.ne_nil
  | cons name rest ih =>
    by_cases hne : rest = []
    · subst hne
      obtain ⟨content, hitem⟩ := h
      rw [Path.ofNames_singleton]
      exact .into hfolder (Disk.mem_names_of_item? hitem) (.done _ _)
    · obtain ⟨hitem, hrest⟩ := (Disk.leads_cons hne).mp h
      rw [← h.join_join path List.prefix_rfl hne]
      exact .into hfolder (Disk.mem_names_of_item? hitem) (ih hitem hrest)

/-- The path of a file below the root does not lead to a folder, even if it is too long to be followed. -/
theorem isFolder_of_leads {root : String}
    (hroot : disk.find here root = .ok (place, .folder)) (h : disk.Leads place names) :
    disk.isFolder here (Path.join root (Path.ofNames names)) = false := by
  have hdescent : Descent disk root place names _ :=
    descent_of_leads (Disk.find_eq_ok_iff.mp hroot).2.2 h
  obtain ⟨content, hitem⟩ := h.item?
  by_cases hsize : (Path.join root (Path.ofNames names)).utf8ByteSize ≤ Disk.maxPathSize
  · simp [Disk.isFolder, hdescent.find hroot hitem hsize]
  · unfold Disk.isFolder
    split
    · rename_i found hfound
      exact absurd (Disk.pathFault?_eq_none_iff.mp (Disk.find_eq_ok_iff.mp hfound).1).2.2 hsize
    · rfl

/-- The walk finds the files at the ends of all ways down from the root. -/
theorem mem_files_iff {machine : Machine} {options : Filter.Options}
    (hroot : machine.disk.find machine.here options.root = .ok (place, .folder)) :
    file ∈ files machine options ↔
      ∃ names, Way machine.disk machine.here (scopeAt machine options place) options.root place names ∧
        file = Path.join options.root (Path.ofNames names) := by
  simp only [files, hroot, mem_filesBelow_iff]
  constructor
  · rintro ⟨names, hway, -, hfile⟩
    exact ⟨names, hway, hfile⟩
  · rintro ⟨names, hway, hfile⟩
    exact ⟨names, hway, Nat.le_succ_of_le hway.leads.length_le, hfile⟩

end Walk

/-! ## Folders without rules -/

/-- No ignore file of a folder has a rule. -/
structure Quiet (disk : Disk) (here folder : Place) : Prop where
  general : Rule.ofPlace disk (folder ++ [".ignore"]) = []
  versioned : Rule.ofPlace disk (folder ++ [".gitignore"]) = []
  unversioned : unversionedRules disk here folder = []

theorem Quiet.of_item? {disk : Disk} {here folder : Place} (hgeneral : disk.item? (folder ++ [".ignore"]) = none)
    (hversioned : disk.item? (folder ++ [".gitignore"]) = none) (hdata : disk.item? (folder ++ [".git"]) = none)
    (hunversioned : disk.item? (folder ++ [".git", "info", "exclude"]) = none) : Quiet disk here folder := by
  constructor
  · simp [Rule.ofPlace, hgeneral]
  · simp [Rule.ofPlace, hversioned]
  · simp [unversionedRules, Rule.ofPlace, hdata, hunversioned]

theorem RuleSet.verdict?_of_nil {set : RuleSet} (h : set.rules = []) (path : String) (isFolder : Bool) :
    set.verdict? path isFolder = none := by
  rw [RuleSet.verdict?, h]
  rfl

theorem firstVerdict?_of_nil {sets : List RuleSet} (h : ∀ set ∈ sets, set.rules = []) (path : String)
    (isFolder : Bool) : firstVerdict? sets path isFolder = none := by
  rw [firstVerdict?, List.findSome?_eq_none_iff]
  exact fun set hset => RuleSet.verdict?_of_nil (h set hset) path isFolder

theorem Quiet.rules_eq_nil {disk : Disk} {here folder : Place} (h : Quiet disk here folder) (useGit : Bool)
    (path : String) :
    let level := Level.ofFolder disk here useGit path folder
    level.general.rules = [] ∧ level.versioned.rules = [] ∧ level.unversioned.rules = [] := by
  simp [Level.ofFolder, h.general, h.versioned, h.unversioned]

namespace Walk

theorem Scope.kindVerdict?_cons {level : Level} {kind : Level → RuleSet} (h : (kind level).rules = [])
    (scope : Scope) (path : String) (isFolder : Bool) :
    Scope.kindVerdict? { scope with inside := level :: scope.inside } kind path isFolder =
      scope.kindVerdict? kind path isFolder := by
  simp only [Scope.kindVerdict?, firstVerdict?, List.map_cons, List.findSome?_cons,
    RuleSet.verdict?_of_nil h]
  rfl

/-- In a folder without rules nothing else is said. -/
theorem Scope.verdict?_enter {disk : Disk} {here folder : Place} (h : Quiet disk here folder) (scope : Scope)
    (entered path : String) (isFolder : Bool) :
    (scope.enter disk here entered folder).verdict? path isFolder = scope.verdict? path isFolder := by
  obtain ⟨hgeneral, hversioned, hunversioned⟩ := h.rules_eq_nil scope.useGit entered
  simp only [Scope.verdict?, Scope.enter, Scope.kindVerdict?_cons hgeneral,
    Scope.kindVerdict?_cons hversioned, Scope.kindVerdict?_cons hunversioned]

theorem Scope.skips_eq_false_iff {name : String} (hname : isHiddenName name = false) (scope : Scope)
    (path : String) (isFolder : Bool) :
    scope.skips path name isFolder = false ↔ scope.verdict? path isFolder ≠ some .ignore := by
  unfold Scope.skips
  split
  · rename_i verdict hverdict
    simp [hverdict]
  · rename_i hverdict
    simp [hverdict, hname]

variable {disk : Disk} {here place : Place} {scope : Scope} {path : String} {names : List String}

theorem way_cons {name : String} (hne : names ≠ []) :
    Way disk here scope path place (name :: names) ↔
      disk.item? (place ++ [name]) = some .folder ∧
        scope.skips (Path.join path name) name true = false ∧
          Way disk here (scope.enter disk here (Path.join path name) (place ++ [name]))
            (Path.join path name) (place ++ [name]) names := by
  constructor
  · intro h
    cases h with
    | file => exact absurd rfl hne
    | folder hitem hpasses hway => exact ⟨hitem, hpasses, hway⟩
  · rintro ⟨hitem, hpasses, hway⟩
    exact .folder hitem hpasses hway

theorem way_singleton {name : String} :
    Way disk here scope path place [name] ↔
      (∃ content, disk.item? (place ++ [name]) = some (.file content)) ∧
        scope.skips (Path.join path name) name false = false := by
  constructor
  · intro h
    cases h with
    | file hitem hpasses => exact ⟨⟨_, hitem⟩, hpasses⟩
    | folder _ _ hway => exact absurd rfl hway.leads.ne_nil
  · rintro ⟨⟨content, hitem⟩, hpasses⟩
    exact .file hitem hpasses

theorem forall_prefix_cons {p : List String → Prop} {name : String} :
    (∀ front, front <+: name :: names → front ≠ [] → p front) ↔
      p [name] ∧ ∀ front, front <+: names → front ≠ [] → p (name :: front) := by
  constructor
  · intro h
    refine ⟨h [name] (by simp) (by simp), fun front hfront _ => ?_⟩
    exact h (name :: front) (by simpa using hfront) (by simp)
  · rintro ⟨hsingle, hlonger⟩ front hfront hne
    obtain rfl | ⟨rest, rfl, hrest⟩ := List.prefix_cons_iff.mp hfront
    · exact absurd rfl hne
    · by_cases hnil : rest = []
      · rwa [hnil]
      · exact hlonger rest hrest hnil

/-- Below a folder without further rules the ways are those on which nothing is ignored. -/
theorem way_iff (hquiet : ∀ below, below ≠ [] → Quiet disk here (place ++ below))
    (hvisible : ∀ name ∈ names, isHiddenName name = false) :
    Way disk here scope path place names ↔
      disk.Leads place names ∧ ∀ front, front <+: names → front ≠ [] →
        scope.verdict? (Path.join path (Path.ofNames front)) (decide (front ≠ names)) ≠ some .ignore := by
  induction names generalizing scope path place with
  | nil => exact iff_of_false (fun h => h.leads.ne_nil rfl) fun h => h.1.ne_nil rfl
  | cons name rest ih =>
    obtain ⟨hname, hrest⟩ := List.forall_mem_cons.mp hvisible
    rw [forall_prefix_cons, Path.ofNames_singleton]
    by_cases hne : rest = []
    · subst hne
      rw [way_singleton, Scope.skips_eq_false_iff hname]
      simp [Disk.Leads]
    · have hbelow : ∀ below, below ≠ [] → Quiet disk here (place ++ [name] ++ below) := by
        intro below _
        rw [List.append_assoc]
        exact hquiet _ (by simp)
      have hfolder : decide ([name] ≠ name :: rest) = true := by simpa using Ne.symm hne
      rw [way_cons hne, Scope.skips_eq_false_iff hname, ih hbelow hrest, hfolder]
      -- The folder is entered, but it has no rules that would be asked from there on.
      simp only [Scope.verdict?_enter (hquiet [name] (by simp))]
      constructor
      · rintro ⟨hitem, hpasses, hleads, hall⟩
        have hlong := (Disk.leads_cons hne).mpr ⟨hitem, hleads⟩
        refine ⟨hlong, hpasses, fun front hfront hfrontNe => ?_⟩
        rw [← hlong.join_join path hfront hfrontNe]
        simpa using hall front hfront hfrontNe
      · rintro ⟨hlong, hpasses, hall⟩
        obtain ⟨hitem, hleads⟩ := (Disk.leads_cons hne).mp hlong
        refine ⟨hitem, hpasses, hleads, fun front hfront hfrontNe => ?_⟩
        rw [hlong.join_join path hfront hfrontNe]
        simpa using hall front hfront hfrontNe

end Walk

end CodeOutline
