import Mathlib.Data.List.Basic
import PolicyProbe.Topology

/-!
Where the files of namespaces are. A name that may be that of a namespace has no slash and is none
of the two names that stand for a directory, so joining it to a directory goes one step down
(`Path.isChild_join`): the path has the names of the directory with this name behind them, and it
stays below the directory also when steps up are taken back. Distinct names have distinct paths
(`Path.IsChild.unique`).
-/
namespace PolicyProbe

namespace Path

/-! ## Names of a path -/

theorem segments_ne_nil (text : List Char) : segments text ≠ [] := by
  cases text with
  | nil => simp [segments]
  | cons c rest =>
    rw [segments]
    split
    · simp
    · split <;> simp

theorem segments_cons {text name : List Char} {names : List (List Char)}
    (h : segments text = name :: names) (c : Char) :
    segments (c :: text) = if c = '/' then [] :: name :: names else (c :: name) :: names := by
  rw [segments, h]

theorem segments_of_plain {text : List Char} (h : '/' ∉ text) : segments text = [text] := by
  induction text with
  | nil => rfl
  | cons c rest ih =>
    obtain ⟨hc, hrest⟩ := not_or.mp (fun hmem => h (List.mem_cons.mpr hmem))
    rw [segments_cons (ih hrest), if_neg (Ne.symm hc)]

/-- A slash ends a name. -/
theorem segments_append_slash (before after : List Char) :
    segments (before ++ '/' :: after) = segments before ++ segments after := by
  induction before with
  | nil =>
    obtain ⟨name, names, hafter⟩ := List.exists_cons_of_ne_nil (segments_ne_nil after)
    rw [List.nil_append, segments_cons hafter, if_pos rfl, hafter]
    rfl
  | cons c rest ih =>
    obtain ⟨name, names, hrest⟩ := List.exists_cons_of_ne_nil (segments_ne_nil rest)
    rw [hrest] at ih
    rw [List.cons_append, segments_cons ih, segments_cons hrest]
    split <;> rfl

/-- The names through which a path goes. -/
def names (path : String) : List String := (steps path).filter fun name => !stays name

/-- A path goes from a directory one step down, to a name. -/
structure IsChild (directory name path : String) : Prop where
  names : names path = names directory ++ [name]
  rooted : path.toList.head? = some '/' ↔ directory.toList.head? = some '/'
  flattened : flattened path = flattened directory ++ [name]

/-- In a directory there is one path for a name, and one name for a path. -/
theorem IsChild.unique {directory name name' path : String} (h : IsChild directory name path)
    (h' : IsChild directory name' path) : name = name' := by
  have hnames : Path.names directory ++ [name] = Path.names directory ++ [name'] :=
    h.names.symm.trans h'.names
  exact List.singleton_inj.mp (List.append_cancel_left hnames)

/-- A name without a slash that does not stand for a directory. -/
structure Plain (name : String) : Prop where
  slash : '/' ∉ name.toList
  stays : stays name = false
  climbs : climbs name = false

/-- The text of a name in a directory: a slash comes between them unless the directory has it. -/
theorem join_cases (directory name : String) :
    (directory.toList = [] ∧ (join directory name).toList = name.toList) ∨
      (∃ front, directory.toList = front ++ ['/'] ∧
        (join directory name).toList = front ++ '/' :: name.toList) ∨
      directory.toList ≠ [] ∧
        (join directory name).toList = directory.toList ++ '/' :: name.toList := by
  rcases List.eq_nil_or_concat' directory.toList with hnil | ⟨front, last, hconcat⟩
  · left
    simp [join, hnil]
  · right
    by_cases hlast : last = '/'
    · subst hlast
      exact Or.inl ⟨front, hconcat, by simp [join, hconcat]⟩
    · right
      exact ⟨by simp [hconcat], by simp [join, hconcat, hlast]⟩

/-- A plain name becomes the last name of a path; a slash at the end of the directory makes no
difference. -/
theorem steps_join (directory : String) {name : String} (h : Plain name) :
    ∃ before, (steps directory = before ∨ steps directory = before ++ [""]) ∧
      steps (join directory name) = before ++ [name] := by
  have hname : (segments name.toList).map String.ofList = [name] := by
    rw [segments_of_plain h.slash, List.map_singleton, String.ofList_toList]
  rcases join_cases directory name with ⟨hnil, htext⟩ | ⟨front, hfront, htext⟩ | ⟨-, htext⟩
  · refine ⟨[], Or.inr ?_, ?_⟩
    · rw [steps, hnil]
      rfl
    · rw [steps, htext, hname, List.nil_append]
  · refine ⟨(segments front).map String.ofList, Or.inr ?_, ?_⟩
    · rw [steps, hfront, segments_append_slash, List.map_append]
      rfl
    · rw [steps, htext, segments_append_slash, List.map_append, hname]
  · refine ⟨steps directory, Or.inl rfl, ?_⟩
    rw [steps, htext, segments_append_slash, List.map_append, hname, steps]

/-- A path begins with a slash if its directory does. -/
theorem rooted_join (directory : String) {name : String} (h : Plain name) :
    (join directory name).toList.head? = some '/' ↔ directory.toList.head? = some '/' := by
  rcases join_cases directory name with ⟨hnil, htext⟩ | ⟨front, hfront, htext⟩ | ⟨hne, htext⟩
  · rw [htext, hnil]
    refine ⟨fun hslash => ?_, fun hnone => ?_⟩
    · exact absurd (List.mem_of_mem_head? hslash) h.slash
    · cases hnone
  · rw [htext, hfront]
    cases front <;> simp
  · obtain ⟨c, rest, hcons⟩ := List.exists_cons_of_ne_nil hne
    rw [htext, hcons]
    rfl

theorem isChild_join (directory : String) {name : String} (h : Plain name) :
    IsChild directory name (join directory name) := by
  obtain ⟨before, hdirectory, hjoin⟩ := steps_join directory h
  constructor
  case names =>
    have hbefore : names directory = before.filter fun name => !stays name := by
      rcases hdirectory with heq | heq
      · rw [names, heq]
      · rw [names, heq, List.filter_append]
        exact List.append_nil _
    rw [names, hjoin, hbefore, List.filter_append]
    simp [h.stays]
  case rooted => exact rooted_join directory h
  case flattened =>
    have hbefore : flattened directory = before.foldl (fun place name =>
        if stays name then place
        else if climbs name then place.dropLast else place ++ [name]) [] := by
      rcases hdirectory with heq | heq
      · rw [flattened, heq]
      · rw [flattened, heq, List.foldl_append]
        rfl
    rw [hbefore, flattened, hjoin, List.foldl_append, List.foldl_cons, List.foldl_nil]
    simp only [h.stays, h.climbs, Bool.false_eq_true, if_false]

end Path

/-! ## Names of namespaces -/

theorem Settings.plain_of_isNamespaceName {name : String} (h : isNamespaceName name = true) :
    Path.Plain name := by
  simp only [isNamespaceName, Bool.and_eq_true] at h
  obtain ⟨⟨⟨hne, hchars⟩, hpoint⟩, hpoints⟩ := h
  constructor
  case slash =>
    intro hslash
    have hchar := List.all_eq_true.mp hchars '/' hslash
    exact absurd hchar (by decide)
  case stays =>
    have hempty : name.isEmpty = false := by simpa using hne
    have hsame : (name == ".") = false := by simpa using hpoint
    rw [Path.stays, hempty, hsame]
    rfl
  case climbs => simpa [Path.climbs] using hpoints

/-- Every text has the path of a name directly in the directory of namespaces, or none. -/
theorem Topology.isChild_path? {t : Topology} {name path : String} (h : t.path? name = some path) :
    Path.IsChild t.directory name path := by
  rw [path?] at h
  split at h
  · rename_i hname
    obtain rfl := Option.some.inj h
    exact Path.isChild_join t.directory (Settings.plain_of_isNamespaceName hname)
  · cases h

end PolicyProbe
