import Pseudocode.Proofs.Decimal
import Pseudocode.Proofs.Text
import Pseudocode.Settings.Basic

/-!
# Where settings come from

Files are read one after the other, and each sets the variables that are not set already.  What
comes of it is one value for each variable: that of the environment, or else the last one in the
first file that gives it a value it can take.  Settings depend on these values only, whatever the
form of the files is.

* `Environment.Loader.Documented` : what a loader promises, which `Environment.Loader.standard`
  keeps.
* `Settings.effective?` : the value that a variable has in the end.
* `Environment.lookup_addDefinitions`, `Environment.addFiles_of_parses` : what a file adds to an
  environment, and what all of them add.
* `Settings.readStrict_eq_ok_iff`, `Settings.readMaxBytes_eq_ok_iff` : which values are understood.
* `Settings.load_follows_effective` : **settings follow the effective values of four variables.**
-/

namespace Pseudocode

/-! ### Values in files -/

namespace EnvFile

/-- The values that definitions give to a variable, in the order of the file. -/
def valuesOf (defs : Definitions) (var : String) : List String :=
  (defs.reverse.filter fun d => d.1 == var.toList).map fun d => String.ofList d.2

theorem getLast?_valuesOf (defs : Definitions) (var : String) :
    (valuesOf defs var).getLast? = (defs.lookup var.toList).map String.ofList := by
  induction defs with
  | nil => rfl
  | cons d defs ih =>
    obtain ⟨key, value⟩ := d
    rw [valuesOf, List.reverse_cons, List.filter_append, List.map_append, List.getLast?_append,
      ← valuesOf, ih, List.lookup_cons]
    by_cases hkey : key = var.toList
    · simp [hkey]
    · have hne : (var.toList == key) = false := beq_eq_false_iff_ne.2 (Ne.symm hkey)
      simp [hkey, hne]

end EnvFile

namespace Settings

/-- The file is missing, or it has the form of an environment file. -/
def parses (loader : Environment.Loader) (files : Files) (file : String) : Bool :=
  match files.read file with
  | .error .notFound => true
  | .error _ => false
  | .ok content => (loader.parse content.toList).isOk

/-- The last value that a file gives to a variable, if it gives any. -/
def fileValue? (loader : Environment.Loader) (files : Files) (file var : String) :
    Option String :=
  match files.read file with
  | .error _ => none
  | .ok content => do
    let defs ← (loader.parse content.toList).toOption
    (EnvFile.valuesOf defs var).getLast?

/-- The value can be that of a variable: it holds no null character. -/
def canBeSet (value : String) : Bool := !value.toList.contains (Char.ofNat 0)

/-- The files that are read if the given ones are named. -/
def listed (names : List String) : List String := if names.isEmpty then defaultFiles else names

/-- The value that a variable has after the files were read: that of the environment, otherwise the
last one in the first file of which it can take the last one. -/
def effective? (loader : Environment.Loader) (env : Environment) (files : Files)
    (names : List String) (var : String) : Option String :=
  (env.lookup var).or
    ((listed names).findSome? fun file => (fileValue? loader files file var).filter canBeSet)

/-- The variables that settings are read from. -/
def variableNames : List String :=
  ["PSEINT_ADDR", "PSEINT_HISTORY", "PSEINT_STRICT", "PSEINT_MAX_BYTES"]

end Settings

/-! ### Environments -/

namespace Environment

open Settings (canBeSet fileValue? parses)

/-- The name can be that of a variable. -/
structure IsName (var : String) : Prop where
  ne_empty : var ≠ ""
  no_null : Char.ofNat 0 ∉ var.toList
  no_sign : '=' ∉ var.toList

variable {var : String}

theorem isName_of_mem_variableNames (h : var ∈ Settings.variableNames) : IsName var := by
  have hall : ∀ v ∈ Settings.variableNames,
      v ≠ "" ∧ Char.ofNat 0 ∉ v.toList ∧ '=' ∉ v.toList := by decide
  obtain ⟨hempty, hnull, hsign⟩ := hall var h
  exact ⟨hempty, hnull, hsign⟩

theorem setDefault_cases (env : Environment) (name value : String) :
    env.setDefault name value = env ∨ env.setDefault name value = env ++ [(name, value)] := by
  unfold setDefault
  simp only
  split
  · exact .inl rfl
  · split
    · exact .inl rfl
    · exact .inr rfl

/-- A variable is set if it is not set already and can take the value. -/
theorem lookup_setDefault (hvar : IsName var) (env : Environment) (name value : String) :
    (env.setDefault name value).lookup var =
      (env.lookup var).or (if name = var then (some value).filter canBeSet else none) := by
  by_cases hname : name = var
  · subst hname
    have hfree : (name.isEmpty || decide (Char.ofNat 0 ∈ name.toList) ||
        decide ('=' ∈ name.toList)) = false := by
      simp [hvar.ne_empty, hvar.no_null, hvar.no_sign]
    rw [setDefault, if_pos rfl, Option.filter_some]
    simp only [hfree, Bool.false_or, decide_eq_true_eq]
    by_cases hnull : Char.ofNat 0 ∈ value.toList
    · have hcan : canBeSet value = false := by simp [canBeSet, hnull]
      simp [hnull, hcan]
    · have hcan : canBeSet value = true := by simp [canBeSet, hnull]
      cases hset : env.lookup name with
      | some old => simp [hnull, hset]
      | none => simp [hnull, hset, hcan, List.lookup_append]
  · have hne : (var == name) = false := beq_eq_false_iff_ne.2 (Ne.symm hname)
    rw [if_neg hname, Option.or_none]
    obtain h | h := setDefault_cases env name value
    · rw [h]
    · rw [h, List.lookup_append, List.lookup_cons, hne]
      exact Option.or_none

/-- Variables that are set one after the other, each to a value that goes with its name. -/
theorem lookup_foldl_setDefault (hvar : IsName var) (value : List Char → List Char)
    (keys : List (List Char)) (env : Environment) :
    (keys.foldl (fun env key => env.setDefault (String.ofList key) (String.ofList (value key)))
        env).lookup var =
      (env.lookup var).or (if var.toList ∈ keys then
        (some (String.ofList (value var.toList))).filter canBeSet else none) := by
  induction keys generalizing env with
  | nil => simp
  | cons key keys ih =>
    rw [List.foldl_cons, ih, lookup_setDefault hvar, Option.or_assoc]
    congr 1
    by_cases hkey : String.ofList key = var
    · subst hkey
      rw [if_pos rfl, String.toList_ofList, if_pos List.mem_cons_self]
      split
      · exact Option.or_self
      · exact Option.or_none
    · have hne : var.toList ≠ key := fun h => hkey (by rw [← h, String.ofList_toList])
      rw [if_neg hkey, Option.none_or]
      simp only [List.mem_cons, hne, false_or]

/-- **A file sets a variable to its last value there,** unless it is set already or cannot take that
value. -/
theorem lookup_addDefinitions (hvar : IsName var) (env : Environment)
    (defs : EnvFile.Definitions) :
    (env.addDefinitions defs).lookup var =
      (env.lookup var).or ((EnvFile.valuesOf defs var).getLast?.filter canBeSet) := by
  have hkeys : env.addDefinitions defs = (defs.map (·.1)).foldl (fun env key =>
      env.setDefault (String.ofList key) (String.ofList ((defs.lookup key).getD []))) env := by
    rw [List.foldl_map]
    rfl
  rw [hkeys, lookup_foldl_setDefault hvar (fun key => (defs.lookup key).getD []),
    EnvFile.getLast?_valuesOf]
  congr 1
  cases hlast : defs.lookup var.toList with
  | none =>
    have hnone : var.toList ∉ defs.map (·.1) := by
      rintro hmem
      obtain ⟨d, hd, hkey⟩ := List.mem_map.1 hmem
      simpa [hkey] using List.lookup_eq_none_iff.1 hlast d hd
    rw [if_neg hnone]
    rfl
  | some value =>
    have hsome : var.toList ∈ defs.map (·.1) := by
      obtain ⟨d, hd, hkey⟩ := List.lookup_isSome_iff.1 (Option.isSome_of_eq_some hlast)
      exact List.mem_map.2 ⟨d, hd, (beq_iff_eq.1 hkey).symm⟩
    rw [if_pos hsome]
    rfl

/-- What a loader promises: a variable that is not set takes the last value that a file gives it, if
it can take that value. -/
structure Loader.Documented (loader : Loader) : Prop where
  lookup_add : ∀ {var}, IsName var → ∀ (env : Environment) (defs : EnvFile.Definitions),
    (loader.add env defs).lookup var =
      (env.lookup var).or ((EnvFile.valuesOf defs var).getLast?.filter canBeSet)

theorem Loader.standard_documented : Loader.standard.Documented := ⟨lookup_addDefinitions⟩

/-- **Files that parse are all read,** and a variable that is not set takes its value from the first
of them that has one for it. -/
theorem addFiles_of_parses {loader : Loader} (hloader : loader.Documented) {files : Files}
    {names : List String} (h : ∀ file ∈ names, parses loader files file = true)
    (env : Environment) :
    ∃ env', addFiles loader files names env = .ok env' ∧
      ∀ var, IsName var → env'.lookup var = (env.lookup var).or
        (names.findSome? fun file => (fileValue? loader files file var).filter canBeSet) := by
  induction names generalizing env with
  | nil => exact ⟨env, rfl, fun var _ => Option.or_none.symm⟩
  | cons file names ih =>
    obtain ⟨hfile, hnames⟩ := List.forall_mem_cons.1 h
    unfold parses at hfile
    split at hfile
    · rename_i hread
      obtain ⟨env', hall, hlookup⟩ := ih hnames env
      refine ⟨env', by rw [addFiles, hread]; exact hall, fun var hvar => ?_⟩
      rw [hlookup var hvar, List.findSome?_cons, fileValue?, hread]
      rfl
    · cases hfile
    · rename_i content hread
      obtain ⟨defs, hdefs⟩ : ∃ defs, loader.parse content.toList = .ok defs := by
        cases hparse : loader.parse content.toList with
        | ok defs => exact ⟨defs, rfl⟩
        | error reason =>
          rw [hparse] at hfile
          cases hfile
      obtain ⟨env', hall, hlookup⟩ := ih hnames (loader.add env defs)
      refine ⟨env', by simp only [addFiles, hread, hdefs]; exact hall, fun var hvar => ?_⟩
      have hvalue : fileValue? loader files file var =
          (EnvFile.valuesOf defs var).getLast? := by
        simp only [fileValue?, hread, hdefs]
        rfl
      rw [hlookup var hvar, hloader.lookup_add hvar, Option.or_assoc, List.findSome?_cons,
        hvalue]
      cases (EnvFile.valuesOf defs var).getLast?.filter canBeSet <;> rfl

end Environment

/-! ### Values that are understood -/

namespace Settings

open Text (IsDecimal FitsInt64)

/-- The words for yes. -/
def trueWords : List String := ["1", "t", "T", "TRUE", "true", "True"]

/-- The words for no. -/
def falseWords : List String := ["0", "f", "F", "FALSE", "false", "False"]

theorem truth?_eq_some_true_iff {word : String} : truth? word = some true ↔ word ∈ trueWords := by
  constructor
  · intro h
    unfold truth? at h
    split at h <;> simp_all [trueWords]
  · intro h
    have hall : ∀ w ∈ trueWords, truth? w = some true := by decide
    exact hall word h

theorem truth?_eq_some_false_iff {word : String} :
    truth? word = some false ↔ word ∈ falseWords := by
  constructor
  · intro h
    unfold truth? at h
    split at h <;> simp_all [falseWords]
  · intro h
    have hall : ∀ w ∈ falseWords, truth? w = some false := by decide
    exact hall word h

/-- **How strict to be is empty, or a word for yes or no.** -/
theorem readStrict_eq_ok_iff {value : String} {strict : Bool} :
    readStrict value = .ok strict ↔
      (value = "" ∨ value ∈ trueWords ++ falseWords) ∧ strict = decide (value ∈ trueWords) := by
  unfold readStrict
  by_cases hempty : value = ""
  · subst hempty
    have hword : decide ("" ∈ trueWords) = false := by decide
    rw [hword, if_pos (String.isEmpty_iff.2 rfl), Except.ok.injEq]
    exact ⟨fun h => ⟨.inl rfl, h.symm⟩, fun h => h.2.symm⟩
  · rw [if_neg (by simpa using hempty)]
    cases hword : truth? value with
    | none =>
      have htrue : value ∉ trueWords := fun h => by
        rw [truth?_eq_some_true_iff.2 h] at hword
        cases hword
      have hfalse : value ∉ falseWords := fun h => by
        rw [truth?_eq_some_false_iff.2 h] at hword
        cases hword
      simp [hempty, htrue, hfalse]
    | some b =>
      cases b with
      | true =>
        have htrue := truth?_eq_some_true_iff.1 hword
        simp [htrue, eq_comm]
      | false =>
        have hfalse := truth?_eq_some_false_iff.1 hword
        have htrue : value ∉ trueWords := fun h => by
          rw [truth?_eq_some_true_iff.2 h] at hword
          cases hword
        simp [htrue, hfalse, eq_comm]

/-- **The greatest size is empty, or an integer of 64 bits,** which counts if it is positive. -/
theorem readMaxBytes_eq_ok_iff {value : String} {maxBytes : Int} :
    readMaxBytes value = .ok maxBytes ↔ (value = "" ∧ maxBytes = defaultMaxBytes) ∨
      ∃ k, IsDecimal value.toList k ∧ FitsInt64 k ∧
        maxBytes = if 0 < k then k else defaultMaxBytes := by
  unfold readMaxBytes
  by_cases hempty : value = ""
  · subst hempty
    have hnone : ∀ k, ¬ IsDecimal "".toList k := by
      rintro k ⟨digits, hne, -, ⟨h | h, -⟩ | ⟨h, -⟩⟩
      · exact hne h.symm
      · cases h
      · cases h
    rw [if_pos (String.isEmpty_iff.2 rfl), Except.ok.injEq]
    simp only [hnone, false_and, exists_false, or_false, true_and]
    exact eq_comm
  · rw [if_neg (by simpa using hempty)]
    simp only [hempty, false_and, false_or]
    simp only [← and_assoc, ← Text.integer_eq_ok_iff]
    cases Text.integer value.toList with
    | error reason => simp
    | ok k => simp [eq_comm]

theorem ofEnvironment_eq_ok_iff {env : Environment} {settings : Settings} :
    ofEnvironment env = .ok settings ↔
      ∃ strict maxBytes, readStrict (env.value "PSEINT_STRICT") = .ok strict ∧
        readMaxBytes (env.value "PSEINT_MAX_BYTES") = .ok maxBytes ∧
        settings = ⟨orElse (env.value "PSEINT_ADDR") defaultAddr, env.value "PSEINT_HISTORY",
          strict, maxBytes⟩ := by
  unfold ofEnvironment
  cases readStrict (env.value "PSEINT_STRICT") with
  | error e => simp [bind, Except.bind]
  | ok strict =>
    cases readMaxBytes (env.value "PSEINT_MAX_BYTES") with
    | error e => simp [bind, Except.bind]
    | ok maxBytes => simp [bind, Except.bind, pure, Except.pure, eq_comm]

/-! ### Settings -/

/-- The effective value of a variable without the spaces around it, empty if it has none. -/
def effective (loader : Environment.Loader) (env : Environment) (files : Files)
    (names : List String) (var : String) : String :=
  String.ofList (Text.trim ((effective? loader env files names var).getD "").toList)

theorem ofEnvironment_congr {env env' : Environment}
    (h : ∀ var ∈ variableNames, env'.lookup var = env.lookup var) :
    ofEnvironment env' = ofEnvironment env := by
  have hvalue : ∀ var ∈ variableNames, env'.value var = env.value var := fun var hvar => by
    rw [Environment.value, Environment.value, h var hvar]
  simp only [variableNames, List.forall_mem_cons] at hvalue
  obtain ⟨haddr, hhistory, hstrict, hmax, -⟩ := hvalue
  rw [ofEnvironment, ofEnvironment, haddr, hhistory, hstrict, hmax]

theorem load_eq_ofEnvironment {loader : Environment.Loader} (hloader : loader.Documented)
    (env : Environment) {files : Files} {names : List String}
    (h : ∀ file ∈ listed names, parses loader files file = true) :
    ∃ env' : Environment, load loader env files names = ofEnvironment env' ∧
      ∀ var ∈ variableNames, env'.lookup var = effective? loader env files names var := by
  obtain ⟨env', hread, hlookup⟩ := Environment.addFiles_of_parses hloader h env
  refine ⟨env', ?_, fun var hvar => hlookup var (Environment.isName_of_mem_variableNames hvar)⟩
  unfold listed at hread
  rw [load, hread]
  exact pure_bind env' ofEnvironment

/-- The settings are those that the values of the variables, without spaces around them, give. -/
structure Follows (settings : Settings) (value : String → String) : Prop where
  addr_trimmed : Text.trim settings.addr.toList = settings.addr.toList
  addr_ne_empty : settings.addr ≠ ""
  addr : settings.addr = if value "PSEINT_ADDR" = "" then defaultAddr else value "PSEINT_ADDR"
  historyPath : settings.historyPath = value "PSEINT_HISTORY"
  strict : settings.strict = decide (value "PSEINT_STRICT" ∈ trueWords)
  one_le_maxBytes : 1 ≤ settings.maxBytes
  maxBytes : (value "PSEINT_MAX_BYTES" = "" ∧ settings.maxBytes = defaultMaxBytes) ∨
    ∃ k, IsDecimal (value "PSEINT_MAX_BYTES").toList k ∧
      settings.maxBytes = if 0 < k then k else defaultMaxBytes

theorem Follows.congr {settings : Settings} {value value' : String → String}
    (h : Follows settings value) (hsame : ∀ var ∈ variableNames, value var = value' var) :
    Follows settings value' where
  addr_trimmed := h.addr_trimmed
  addr_ne_empty := h.addr_ne_empty
  addr := by rw [← hsame _ (by decide)]; exact h.addr
  historyPath := by rw [← hsame _ (by decide)]; exact h.historyPath
  strict := by rw [← hsame _ (by decide)]; exact h.strict
  one_le_maxBytes := h.one_le_maxBytes
  maxBytes := by rw [← hsame _ (by decide)]; exact h.maxBytes

theorem orElse_of_trimmed {text : String} (h : Text.trim text.toList = text.toList)
    (other : String) : orElse text other = if text = "" then other else text := by
  simp only [orElse, h, String.ofList_toList, String.isEmpty_iff]

/-- What stands for a text that may be empty is trimmed and not empty. -/
theorem trimmed_orElse {other : String} (hother : Text.trim other.toList = other.toList)
    (hne : other ≠ "") (text : String) :
    Text.trim (orElse text other).toList = (orElse text other).toList ∧ orElse text other ≠ "" := by
  unfold orElse
  simp only [String.isEmpty_iff]
  split
  · exact ⟨hother, hne⟩
  · rename_i htext
    exact ⟨by rw [String.toList_ofList, Text.trim_trim], htext⟩

theorem trim_value (env : Environment) (var : String) :
    Text.trim (env.value var).toList = (env.value var).toList := by
  rw [Environment.value, String.toList_ofList, Text.trim_trim]

theorem one_le_of_readMaxBytes {value : String} {maxBytes : Int}
    (h : readMaxBytes value = .ok maxBytes) : 1 ≤ maxBytes := by
  have hdefault : defaultMaxBytes = 1048576 := rfl
  obtain ⟨-, hvalue⟩ | ⟨k, -, -, hvalue⟩ := readMaxBytes_eq_ok_iff.1 h
  · omega
  · split at hvalue <;> omega

theorem follows_of_ofEnvironment {env : Environment} {settings : Settings}
    (h : ofEnvironment env = .ok settings) : Follows settings env.value := by
  obtain ⟨strict, maxBytes, hstrict, hmax, hsettings⟩ := ofEnvironment_eq_ok_iff.1 h
  have haddr : settings.addr = orElse (env.value "PSEINT_ADDR") defaultAddr := by rw [hsettings]
  have hlimit : settings.maxBytes = maxBytes := by rw [hsettings]
  have hdefault : Text.trim defaultAddr.toList = defaultAddr.toList := by decide
  obtain ⟨htrimmed, hne⟩ := trimmed_orElse hdefault (by decide) (env.value "PSEINT_ADDR")
  constructor
  · rw [haddr, htrimmed]
  · rw [haddr]
    exact hne
  · rw [haddr, orElse_of_trimmed (trim_value env "PSEINT_ADDR")]
  · rw [hsettings]
  · rw [hsettings, (readStrict_eq_ok_iff.1 hstrict).2]
  · rw [hlimit]
    exact one_le_of_readMaxBytes hmax
  · rw [hlimit]
    obtain hempty | ⟨k, hk, -, hvalue⟩ := readMaxBytes_eq_ok_iff.1 hmax
    · exact .inl hempty
    · exact .inr ⟨k, hk, hvalue⟩

/-- An environment gives no settings exactly if one of two values is not understood. -/
theorem ofEnvironment_eq_error_iff {env : Environment} :
    (∃ e, ofEnvironment env = .error e) ↔
      (env.value "PSEINT_STRICT" ≠ "" ∧
        env.value "PSEINT_STRICT" ∉ trueWords ++ falseWords) ∨
      (env.value "PSEINT_MAX_BYTES" ≠ "" ∧
        ¬ ∃ k, IsDecimal (env.value "PSEINT_MAX_BYTES").toList k ∧ FitsInt64 k) := by
  have hok : (∃ e, ofEnvironment env = .error e) ↔
      ¬ ∃ settings, ofEnvironment env = .ok settings := by
    cases ofEnvironment env <;> simp
  have hstrict : (∃ strict, readStrict (env.value "PSEINT_STRICT") = .ok strict) ↔
      (env.value "PSEINT_STRICT" = "" ∨ env.value "PSEINT_STRICT" ∈ trueWords ++ falseWords) := by
    simp only [readStrict_eq_ok_iff, exists_and_left, exists_eq, and_true]
  have hmax : (∃ n, readMaxBytes (env.value "PSEINT_MAX_BYTES") = .ok n) ↔
      (env.value "PSEINT_MAX_BYTES" = "" ∨
        ∃ k, IsDecimal (env.value "PSEINT_MAX_BYTES").toList k ∧ FitsInt64 k) := by
    simp only [readMaxBytes_eq_ok_iff, exists_or, exists_and_left, exists_eq, and_true]
    refine or_congr_right ⟨?_, ?_⟩
    · rintro ⟨n, k, hk, hfits, -⟩
      exact ⟨k, hk, hfits⟩
    · rintro ⟨k, hk, hfits⟩
      exact ⟨_, k, hk, hfits, rfl⟩
  have hboth : (∃ settings, ofEnvironment env = .ok settings) ↔
      (∃ strict, readStrict (env.value "PSEINT_STRICT") = .ok strict) ∧
        ∃ n, readMaxBytes (env.value "PSEINT_MAX_BYTES") = .ok n := by
    simp only [ofEnvironment_eq_ok_iff]
    constructor
    · rintro ⟨_, strict, n, hs, hn, -⟩
      exact ⟨⟨strict, hs⟩, n, hn⟩
    · rintro ⟨⟨strict, hs⟩, n, hn⟩
      exact ⟨_, strict, n, hs, hn, rfl⟩
  rw [hok, hboth, hstrict, hmax, not_and_or, not_or, not_or]

/-- **Settings follow the effective values of four variables.**  They depend on nothing else of the
environment and the files; they are refused exactly if a truth value or an integer of 64 bits is
expected and something else is given; and otherwise each of them is what its variable says, or the
default. -/
theorem load_follows_effective (loader : Environment.Loader) (hloader : loader.Documented)
    (env : Environment) (files : Files) (names : List String)
    (h : ∀ file ∈ listed names, parses loader files file = true) :
    (∀ (env' : Environment) (files' : Files) (names' : List String),
      (∀ file ∈ listed names', parses loader files' file = true) →
      (∀ var ∈ variableNames,
        effective? loader env' files' names' var = effective? loader env files names var) →
      load loader env' files' names' = load loader env files names) ∧
    ((∃ e, load loader env files names = .error e) ↔
      (effective loader env files names "PSEINT_STRICT" ≠ "" ∧
        effective loader env files names "PSEINT_STRICT" ∉ trueWords ++ falseWords) ∨
      (effective loader env files names "PSEINT_MAX_BYTES" ≠ "" ∧
        ¬ ∃ k, IsDecimal (effective loader env files names "PSEINT_MAX_BYTES").toList k ∧
          FitsInt64 k)) ∧
    ∀ settings, load loader env files names = .ok settings →
      Follows settings (effective loader env files names) := by
  obtain ⟨final, hload, hlookup⟩ := load_eq_ofEnvironment hloader env h
  have hvalue : ∀ var ∈ variableNames,
      final.value var = effective loader env files names var := fun var hvar => by
    rw [Environment.value, hlookup var hvar, effective]
  refine ⟨?_, ?_, ?_⟩
  · intro env' files' names' h' hsame
    obtain ⟨final', hload', hlookup'⟩ := load_eq_ofEnvironment hloader env' h'
    rw [hload, hload']
    refine ofEnvironment_congr fun var hvar => ?_
    rw [hlookup' var hvar, hlookup var hvar, hsame var hvar]
  · rw [hload, ofEnvironment_eq_error_iff, hvalue "PSEINT_STRICT" (by decide),
      hvalue "PSEINT_MAX_BYTES" (by decide)]
  · intro settings hsettings
    rw [hload] at hsettings
    exact (follows_of_ofEnvironment hsettings).congr hvalue

/-- Two files that overlap.  The first gives a variable two values, and another a value that it
cannot take. -/
def overlapping : Files := .ofDirectory
  [("a.env", "PSEINT_ADDR=:1\nPSEINT_MAX_BYTES=5\nPSEINT_HISTORY=\x00\nPSEINT_MAX_BYTES=-3\n"),
    ("b.env", "export PSEINT_MAX_BYTES=9\nPSEINT_HISTORY=' h.db '\n")]

/-- The empty address of the environment wins over that of a file, the last limit of the first file
over that of the second, and the history is that of the second file. -/
theorem load_follows_effective_overlapping :
    let env : Environment := [("PSEINT_ADDR", ""), ("PSEINT_STRICT", " t ")]
    let names := ["missing.env", "a.env", "b.env"]
    (∀ file ∈ listed names, parses .standard overlapping file = true) ∧
      effective? .standard env overlapping names "PSEINT_MAX_BYTES" = some "-3" ∧
      load .standard env overlapping names = .ok ⟨":8080", "h.db", true, 1048576⟩ ∧
      Follows ⟨":8080", "h.db", true, 1048576⟩ (effective .standard env overlapping names) := by
  intro env names
  have hparses : ∀ file ∈ listed names, parses .standard overlapping file = true := by
    decide +kernel
  have hlimit : effective? .standard env overlapping names "PSEINT_MAX_BYTES" = some "-3" := by
    decide +kernel
  have hload : load .standard env overlapping names = .ok ⟨":8080", "h.db", true, 1048576⟩ := by
    decide +kernel
  exact ⟨hparses, hlimit, hload,
    (load_follows_effective .standard Environment.Loader.standard_documented env overlapping names
      hparses).2.2 _ hload⟩

/-- A file that defines a variable need not set it: a word that is no truth value is passed over
with the null character that it holds. -/
theorem load_value_with_null :
    let files := Files.ofDirectory [(".env", "PSEINT_STRICT=maybe\x00\n")]
    (∀ file ∈ listed [], parses .standard files file = true) ∧
      fileValue? .standard files ".env" "PSEINT_STRICT" = some "maybe\x00" ∧
      String.ofList (Text.trim "maybe\x00".toList) ∉ "" :: trueWords ++ falseWords ∧
      load .standard [] files [] = .ok ⟨":8080", "", false, 1048576⟩ := by
  decide +kernel

end Settings

end Pseudocode
