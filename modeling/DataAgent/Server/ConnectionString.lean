import DataAgent.Odbc
import DataAgent.Python.Text

/-!
# The connection string

`mcp_server.db._build_connection_string`, over the settings that `TargetDBSettings` accepts.

* `TargetDBSettings` : eight texts, none of them blank;
* `fields` : the attributes as they are written; `render_fields` : they make up the string;
* **`reads_iff`** : the driver reads the settings back exactly if `Quotable`.
-/

namespace DataAgent.Server
open Python Odbc

/-- The eight settings; a blank one is a `ValidationError`. -/
structure TargetDBSettings where
  host : Text
  port : Text
  name : Text
  user : Text
  password : Text
  driver : Text
  encrypt : Text
  trustServerCertificate : Text
  notBlank : ∀ value ∈ [host, port, name, user, password, driver, encrypt, trustServerCertificate], strip value ≠ []

variable (settings : TargetDBSettings)

def buildConnectionString : Text :=
  "DRIVER=\x7b".toList ++ settings.driver ++ "\x7d;".toList ++
  "SERVER=".toList ++ settings.host ++ ",".toList ++ settings.port ++ ";".toList ++
  "DATABASE=".toList ++ settings.name ++ ";".toList ++
  "UID=".toList ++ settings.user ++ ";".toList ++
  "PWD=\x7b".toList ++ settings.password ++ "\x7d;".toList ++
  "Encrypt=".toList ++ settings.encrypt ++ ";".toList ++
  "TrustServerCertificate=".toList ++ settings.trustServerCertificate ++ ";".toList ++
  "ApplicationIntent=ReadOnly;".toList

/-- `host,port`. -/
def TargetDBSettings.server : Text := settings.host ++ ',' :: settings.port

/-- The attributes in their order, and which of them are in braces. -/
def fields : List Field :=
  [⟨"DRIVER".toList, true, settings.driver⟩, ⟨"SERVER".toList, false, settings.server⟩,
    ⟨"DATABASE".toList, false, settings.name⟩, ⟨"UID".toList, false, settings.user⟩,
    ⟨"PWD".toList, true, settings.password⟩, ⟨"Encrypt".toList, false, settings.encrypt⟩,
    ⟨"TrustServerCertificate".toList, false, settings.trustServerCertificate⟩,
    ⟨"ApplicationIntent".toList, false, "ReadOnly".toList⟩]

/-- The attributes that the connection is meant to have. -/
def attributes : List (Text × Text) :=
  [("DRIVER".toList, settings.driver), ("SERVER".toList, settings.server), ("DATABASE".toList, settings.name),
    ("UID".toList, settings.user), ("PWD".toList, settings.password), ("Encrypt".toList, settings.encrypt),
    ("TrustServerCertificate".toList, settings.trustServerCertificate),
    ("ApplicationIntent".toList, "ReadOnly".toList)]

/-- A value that is written bare ends at a semicolon and may not begin with a brace. -/
def PlainValue (value : Text) : Prop := ';' ∉ value ∧ value.head? ≠ some '{'

/-- Neither of the values in braces closes them, and the others are plain; the host and the port are one value. -/
structure Quotable : Prop where
  driver : '}' ∉ settings.driver
  server : PlainValue settings.server
  name : PlainValue settings.name
  user : PlainValue settings.user
  password : '}' ∉ settings.password
  encrypt : PlainValue settings.encrypt
  trustServerCertificate : PlainValue settings.trustServerCertificate

theorem render_fields : render (fields settings) = buildConnectionString settings := by
  -- the literals of the source, as a key and the characters around its value
  have hdriver : "DRIVER=\x7b".toList = "DRIVER".toList ++ ['=', '{'] := by decide
  have hserver : "SERVER=".toList = "SERVER".toList ++ ['='] := by decide
  have hdatabase : "DATABASE=".toList = "DATABASE".toList ++ ['='] := by decide
  have huid : "UID=".toList = "UID".toList ++ ['='] := by decide
  have hpwd : "PWD=\x7b".toList = "PWD".toList ++ ['=', '{'] := by decide
  have hencrypt : "Encrypt=".toList = "Encrypt".toList ++ ['='] := by decide
  have htrust : "TrustServerCertificate=".toList = "TrustServerCertificate".toList ++ ['='] := by decide
  have hintent : "ApplicationIntent=ReadOnly;".toList =
      "ApplicationIntent".toList ++ '=' :: ("ReadOnly".toList ++ [';']) := by decide
  have hclose : "\x7d;".toList = ['}', ';'] := by decide
  have hcomma : ",".toList = [','] := by decide
  have hsemicolon : ";".toList = [';'] := by decide
  unfold buildConnectionString fields
  simp only [hdriver, hserver, hdatabase, huid, hpwd, hencrypt, htrust, hintent, hclose, hcomma, hsemicolon]
  clear hdriver hserver hdatabase huid hpwd hencrypt htrust hintent hclose hcomma hsemicolon
  -- the keys stay closed: what remains is only how the pieces are put together
  generalize "DRIVER".toList = driver
  generalize "SERVER".toList = server
  generalize "DATABASE".toList = database
  generalize "UID".toList = uid
  generalize "PWD".toList = pwd
  generalize "Encrypt".toList = encrypt
  generalize "TrustServerCertificate".toList = trust
  generalize "ApplicationIntent".toList = intent
  generalize "ReadOnly".toList = readOnly
  simp only [render, List.flatMap_cons, List.flatMap_nil, Field.render, if_true, Bool.false_eq_true, if_false,
    TargetDBSettings.server, List.append_assoc, List.cons_append, List.nil_append, List.append_nil]

/-- The eight keys, in the order of the attributes. -/
def keys : List Text :=
  ["DRIVER".toList, "SERVER".toList, "DATABASE".toList, "UID".toList, "PWD".toList, "Encrypt".toList,
    "TrustServerCertificate".toList, "ApplicationIntent".toList]

theorem map_key_fields : (fields settings).map Field.key = keys := by
  simp only [fields, keys, List.map_cons, List.map_nil]

theorem fields_keys : Keys (fields settings) where
  nodup := by
    rw [map_key_fields]
    decide
  plain := by
    have h : ∀ k ∈ keys, '=' ∉ k := by decide
    intro f hf
    apply h
    rw [← map_key_fields settings]
    exact List.mem_map_of_mem hf

/-- A field in braces is safe without a closing brace, a bare one if its value is plain. -/
theorem safe_braced {k v : Text} : Field.Safe ⟨k, true, v⟩ ↔ '}' ∉ v := Iff.rfl

theorem safe_bare {k v : Text} : Field.Safe ⟨k, false, v⟩ ↔ PlainValue v := Iff.rfl

theorem plainValue_readOnly : PlainValue "ReadOnly".toList := by
  unfold PlainValue
  decide

/-- **The attributes are read back, and no others, exactly if no setting has a character that ends or opens its
value.** -/
theorem reads_iff : Reads (buildConnectionString settings) (attributes settings) ↔ Quotable settings := by
  rw [← render_fields]
  refine (reads_render_iff (fields_keys settings)).trans ?_
  rw [fields]
  simp only [List.forall_mem_cons, safe_braced, safe_bare]
  constructor
  · rintro ⟨hdriver, hserver, hname, huser, hpassword, hencrypt, htrust, -⟩
    exact ⟨hdriver, hserver, hname, huser, hpassword, hencrypt, htrust⟩
  · intro h
    exact ⟨h.driver, h.server, h.name, h.user, h.password, h.encrypt, h.trustServerCertificate,
      plainValue_readOnly, by simp⟩

/-- A password with a closing brace. -/
def bracePassword : TargetDBSettings where
  host := "db".toList
  port := "1433".toList
  name := "AdventureWorks".toList
  user := "reader".toList
  password := "p\x7dw".toList
  driver := "ODBC Driver 18 for SQL Server".toList
  encrypt := "yes".toList
  trustServerCertificate := "no".toList
  notBlank := by decide

/-- The string is malformed for the driver. -/
theorem brace_password : ¬ ∀ settings : TargetDBSettings,
    Reads (buildConnectionString settings) (attributes settings) := by
  intro hall
  obtain ⟨pairs, hpairs, -⟩ := hall bracePassword
  have hnone : parse (buildConnectionString bracePassword) = none := by decide +kernel
  rw [hnone] at hpairs
  exact absurd hpairs (by simp)

end DataAgent.Server
