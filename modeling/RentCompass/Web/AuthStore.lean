import RentCompass.Rows
import RentCompass.Since
import RentCompass.Text

/-!
# The credential store

Accounts and the sessions that are logged in to them, two tables of one database. Passwords are
kept as salted hashes and session tokens as digests; both functions are parameters, and of the
password hash is used what it is for: a hash checks with its own password and no other.
-/

namespace RentCompass.Web.Auth

open Rows (updateWhere deleteWhere selectOne Keyed)

/-! ### Data -/

/-- What the store gets from libraries. -/
structure Crypto where
  /-- `str.lower`. -/
  lower : Text → Text
  /-- `generate_password_hash`. -/
  hash : (password salt : Text) → Text
  /-- `check_password_hash`. -/
  check : (hash password : Text) → Bool
  check_hash : ∀ password salt password', check (hash password salt) password' ↔
    password' = password
  /-- `sha256(token.encode()).hexdigest()`. -/
  digest : (token : Text) → Text

/-- A row of `users`. -/
structure User where
  usernameKey : Text
  username : Text
  userId : Text
  displayName : Text
  passwordHash : Text
  createdAt : ℤ

/-- A row of `auth_sessions`. -/
structure Session where
  tokenHash : Text
  userId : Text
  expiresAt : ℤ

/-- The database. -/
structure Db where
  users : List User
  sessions : List Session

/-- What a client may see of an account. -/
structure View where
  username : Text
  userId : Text
  displayName : Text
  deriving DecidableEq

/-- `public_view`. -/
def publicView (r : User) : View :=
  ⟨r.username, r.userId, if r.displayName = [] then r.username else r.displayName⟩

/-- An argument of a request: `None`, a `str`, or something else with what `str` shows of it. -/
inductive Arg where
  | none
  | text (t : Text)
  | other (shown : Text)

/-- `PASSWORD_MIN`. -/
def passwordMin : ℕ := 6
/-- `PASSWORD_MAX`. -/
def passwordMax : ℕ := 128
/-- `DISPLAY_NAME_MAX`. -/
def displayNameMax : ℕ := 64

/-- `[A-Za-z0-9_.\-]`. -/
def usernameChar (c : ℕ) : Bool :=
  (65 ≤ c && c ≤ 90) || (97 ≤ c && c ≤ 122) || (48 ≤ c && c ≤ 57) || c == 95 || c == 46 || c == 45

/-- `valid_username` of a `str`. -/
def validUsername (name : Text) : Bool :=
  3 ≤ name.length && name.length ≤ 32 && name.all usernameChar

/-- `valid_password` of a `str`. -/
def validPassword (password : Text) : Bool :=
  passwordMin ≤ password.length && password.length ≤ passwordMax

/-- The errors of `register`, and the message of each. -/
inductive AuthError where
  | invalidUsername
  | weakPassword
  | displayNameNotText
  | usernameTaken
  deriving DecidableEq

def AuthError.message : AuthError → Text
  | .invalidUsername => "username must be 3–32 chars of letters, digits, '_', '.' or '-'"
  | .weakPassword => "password must be 6–128 characters"
  | .displayNameNotText => "display_name must be a string"
  | .usernameTaken => "that username is already taken"

/-! ### Operations -/

/-- The display name of a new account. -/
def displayOf (username : Text) (displayName : Option Text) : Text :=
  let named : Text := match displayName with
    | some d => if d = [] then username else d
    | none => username
  let display := (Text.strip named).take displayNameMax
  if display = [] then username else display

/-- `INSERT INTO users`, which fails where the key or the id is taken. -/
def insertUser (users : List User) (r : User) : Option (List User) :=
  if users.any (fun u => u.usernameKey = r.usernameKey || u.userId = r.userId) then none
  else some (users ++ [r])

/-- `register` with the id, the salt and the time it draws. -/
def register (cfg : Crypto) (db : Db) (username password displayName : Arg)
    (userId salt : Text) (now : ℤ) : Except AuthError (View × Db) :=
  match username with
  | .text name =>
    if validUsername name then
      match password with
      | .text pw =>
        if validPassword pw then
          match displayName with
          | .other _ => .error .displayNameNotText
          | displayName =>
            let display := displayOf name
              (match displayName with | .text d => some d | _ => none)
            let r : User := ⟨cfg.lower name, name, userId, display, cfg.hash pw salt, now⟩
            match insertUser db.users r with
            | some users => .ok (publicView r, { db with users := users })
            | none => .error .usernameTaken
        else .error .weakPassword
      | _ => .error .weakPassword
    else .error .invalidUsername
  | _ => .error .invalidUsername

/-- `SELECT * FROM users WHERE username_key=?`. -/
def userNamed (cfg : Crypto) (db : Db) (username : Text) : Option User :=
  selectOne (·.usernameKey = cfg.lower username) db.users

/-- `exists`. -/
def exists_ (cfg : Crypto) (db : Db) : Arg → Bool
  | .text name => (userNamed cfg db name).isSome
  | _ => false

/-- `get`. -/
def get (cfg : Crypto) (db : Db) : Arg → Option View
  | .text name => (userNamed cfg db name).map publicView
  | _ => none

/-- `verify`. -/
def verify (cfg : Crypto) (db : Db) (username password : Arg) : Option View :=
  match username with
  | .text name =>
    match userNamed cfg db name with
    | some r =>
      match password with
      | .text pw => if cfg.check r.passwordHash pw then some (publicView r) else none
      | _ => none
    | none => none
  | _ => none

/-- `set_display_name`. -/
def setDisplayName (cfg : Crypto) (db : Db) (username displayName : Arg) : Option View × Db :=
  let shown : Text := match displayName with | .none => [] | .text d => d | .other d => d
  let display := (Text.strip shown).take displayNameMax
  if display = [] then (none, db)
  else
    match username with
    | .text name =>
      if db.users.countP (·.usernameKey = cfg.lower name) = 1 then
        let db' : Db := { db with
          users := updateWhere (·.usernameKey = cfg.lower name)
            (fun r => { r with displayName := display }) db.users }
        ((userNamed cfg db' name).map publicView, db')
      else (none, db)
    | _ => (none, db)

/-- `create_session` with the token it draws and the two times it reads. It raises for an account
that does not exist, and where the digest is in the table already. -/
def createSession (cfg : Crypto) (db : Db) (userId : Text) (ttl : ℤ) (token : Text)
    (now now' : ℤ) : Option Db :=
  if db.users.any (·.userId = userId) then
    let live := deleteWhere (fun s : Session => s.expiresAt ≤ now) db.sessions
    if live.any (·.tokenHash = cfg.digest token) then none
    else some { db with sessions := live ++ [⟨cfg.digest token, userId, now' + ttl⟩] }
  else none

/-- `get_session`. -/
def getSession (cfg : Crypto) (db : Db) (token : Arg) (now : ℤ) : Option View :=
  match token with
  | .text token =>
    if 20 ≤ token.length ∧ token.length ≤ 128 then
      -- the join has at most one row, as digests and ids are unique
      ((db.sessions.filter fun s => s.tokenHash = cfg.digest token ∧ now < s.expiresAt).findSome?
        fun s => selectOne (·.userId = s.userId) db.users).map publicView
    else none
  | _ => none

/-- `revoke_session`. -/
def revokeSession (cfg : Crypto) (db : Db) (token : Arg) : Db :=
  match token with
  | .text token =>
    { db with sessions := deleteWhere (·.tokenHash = cfg.digest token) db.sessions }
  | _ => db

/-- `credentials` and `sessions` of `privacy_inventory`. -/
def privacyInventory (db : Db) (userId : Text) : ℕ × ℕ :=
  (db.users.countP (·.userId = userId), db.sessions.countP (·.userId = userId))

/-- `delete_user_id`: how many accounts were deleted, or `none` where rows are left and the
transaction is rolled back. -/
def deleteUserId (db : Db) (userId : Text) : Option (ℕ × Db) :=
  let users := deleteWhere (fun r : User => r.userId = userId) db.users
  if users.countP (·.userId = userId) = 0 then
    some (db.users.countP (·.userId = userId),
      { db with users := users
                sessions := deleteWhere (fun s : Session => s.userId = userId) db.sessions })
  else none

/-! ### Runs -/

/-- A call that may change the database. -/
inductive Call where
  | register (username password displayName : Arg) (userId salt : Text) (now : ℤ)
  | setDisplayName (username displayName : Arg)
  | createSession (userId : Text) (ttl : ℤ) (token : Text) (now now' : ℤ)
  | revokeSession (token : Arg)
  | deleteUserId (userId : Text)

/-- The database after a call. A call that raises leaves it as it was. -/
def step (cfg : Crypto) (db : Db) : Call → Db
  | .register username password displayName userId salt now =>
    match register cfg db username password displayName userId salt now with
    | .ok (_, db') => db'
    | .error _ => db
  | .setDisplayName username displayName => (setDisplayName cfg db username displayName).2
  | .createSession userId ttl token now now' =>
    (createSession cfg db userId ttl token now now').getD db
  | .revokeSession token => revokeSession cfg db token
  | .deleteUserId userId => ((deleteUserId db userId).map (·.2)).getD db

/-- A new database. -/
def Db.empty : Db := ⟨[], []⟩

/-! ### What every run keeps -/

variable {cfg : Crypto} {db : Db}

/-- Names and ids are unique up to case, digests are unique, and whoever has a session has an
account. -/
structure Sound (db : Db) : Prop where
  names : Keyed User.usernameKey db.users
  ids : Keyed User.userId db.users
  tokens : Keyed Session.tokenHash db.sessions
  accounts : ∀ s ∈ db.sessions, ∃ r ∈ db.users, r.userId = s.userId

lemma sound_empty : Sound Db.empty :=
  ⟨Rows.keyed_nil, Rows.keyed_nil, Rows.keyed_nil, by simp [Db.empty]⟩

lemma insertUser_eq_some {users users' : List User} {r : User} (h : insertUser users r = some users') :
    users' = users ++ [r] ∧ ∀ u ∈ users, u.usernameKey ≠ r.usernameKey ∧ u.userId ≠ r.userId := by
  rw [insertUser] at h
  split_ifs at h with hany
  refine ⟨(Option.some.inj h).symm, fun u hu => ?_⟩
  simp only [List.any_eq_true, Bool.or_eq_true, decide_eq_true_eq, not_exists, not_and,
    not_or] at hany
  exact hany u hu

/-- What a registration that succeeds does. -/
lemma register_eq_ok {username password displayName : Arg} {userId salt : Text} {now : ℤ}
    {view : View} {db' : Db}
    (h : register cfg db username password displayName userId salt now = .ok (view, db')) :
    ∃ name pw display, username = .text name ∧ password = .text pw ∧ validUsername name = true ∧
      db' = { db with users := db.users ++
        [⟨cfg.lower name, name, userId, display, cfg.hash pw salt, now⟩] } ∧
      ∀ u ∈ db.users, u.usernameKey ≠ cfg.lower name ∧ u.userId ≠ userId := by
  cases username with
  | text name =>
    cases password with
    | text pw =>
      simp only [register] at h
      split_ifs at h with hname hpw
      cases displayName with
      | other d => cases h
      | none =>
        dsimp only at h
        split at h
        · rename_i users hinsert
          cases h
          obtain ⟨rfl, hfree⟩ := insertUser_eq_some hinsert
          exact ⟨name, pw, _, rfl, rfl, hname, rfl, hfree⟩
        · cases h
      | text d =>
        dsimp only at h
        split at h
        · rename_i users hinsert
          cases h
          obtain ⟨rfl, hfree⟩ := insertUser_eq_some hinsert
          exact ⟨name, pw, _, rfl, rfl, hname, rfl, hfree⟩
        · cases h
    | none =>
      simp only [register] at h
      split_ifs at h
    | other d =>
      simp only [register] at h
      split_ifs at h
  | none => cases h
  | other d => cases h

variable (cfg db) in
lemma setDisplayName_cases (username displayName : Arg) :
    (setDisplayName cfg db username displayName).2 = db ∨ ∃ key display,
      (setDisplayName cfg db username displayName).2 = { db with
        users := updateWhere (·.usernameKey = key) (fun r => { r with displayName := display })
          db.users } := by
  simp only [setDisplayName]
  split_ifs
  · exact Or.inl rfl
  · cases username with
    | text name =>
      dsimp only
      split_ifs
      · exact Or.inr ⟨_, _, rfl⟩
      · exact Or.inl rfl
    | none => exact Or.inl rfl
    | other d => exact Or.inl rfl

lemma createSession_eq_some {userId : Text} {ttl : ℤ} {token : Text} {now now' : ℤ} {db' : Db}
    (h : createSession cfg db userId ttl token now now' = some db') :
    (∃ r ∈ db.users, r.userId = userId) ∧
      (∀ s ∈ db.sessions, now < s.expiresAt → s.tokenHash ≠ cfg.digest token) ∧
      db' = { db with sessions := deleteWhere (fun s : Session => s.expiresAt ≤ now) db.sessions ++
        [⟨cfg.digest token, userId, now' + ttl⟩] } := by
  simp only [createSession] at h
  split_ifs at h with huser htoken
  refine ⟨by simpa using huser, fun s hs hlive heq => htoken ?_, (Option.some.inj h).symm⟩
  rw [List.any_eq_true]
  exact ⟨s, Rows.mem_deleteWhere.2 ⟨hs, Int.not_le.2 hlive⟩, by simpa using heq⟩

/-- Erasing an account never fails. -/
lemma deleteUserId_eq (db : Db) (userId : Text) : deleteUserId db userId =
    some (db.users.countP (·.userId = userId),
      { db with users := deleteWhere (fun r : User => r.userId = userId) db.users
                sessions := deleteWhere (fun s : Session => s.userId = userId) db.sessions }) := by
  rw [deleteUserId, if_pos]
  rw [List.countP_eq_zero]
  intro r hr
  simpa using (Rows.mem_deleteWhere.1 hr).2

lemma Sound.step (h : Sound db) (call : Call) : Sound (step cfg db call) := by
  cases call with
  | register username password displayName userId salt now =>
    simp only [Auth.step]
    split
    · rename_i view db' hok
      obtain ⟨name, pw, display, -, -, -, rfl, hfree⟩ := register_eq_ok hok
      refine ⟨h.names.append_one fun u hu => (hfree u hu).1,
        h.ids.append_one fun u hu => (hfree u hu).2, h.tokens, fun s hs => ?_⟩
      obtain ⟨r, hr, hid⟩ := h.accounts s hs
      exact ⟨r, List.mem_append_left _ hr, hid⟩
    · exact h
  | setDisplayName username displayName =>
    simp only [Auth.step]
    rcases setDisplayName_cases cfg db username displayName with
      heq | ⟨key, display, heq⟩ <;> rw [heq]
    · exact h
    · refine ⟨h.names.updateWhere fun r _ _ => rfl, h.ids.updateWhere fun r _ _ => rfl, h.tokens,
        fun s hs => ?_⟩
      obtain ⟨r, hr, hid⟩ := h.accounts s hs
      refine ⟨_, Rows.mem_updateWhere.2 ⟨r, hr, rfl⟩, ?_⟩
      split <;> exact hid
  | createSession userId ttl token now now' =>
    simp only [Auth.step]
    cases hcreate : createSession cfg db userId ttl token now now' with
    | none => exact h
    | some db' =>
      obtain ⟨⟨r, hr, hid⟩, hfree, rfl⟩ := createSession_eq_some hcreate
      refine ⟨h.names, h.ids, h.tokens.deleteWhere.append_one fun s hs => ?_, fun s hs => ?_⟩
      · obtain ⟨hmem, hlive⟩ := Rows.mem_deleteWhere.1 hs
        exact hfree s hmem (Int.not_le.1 hlive)
      · rcases List.mem_append.1 hs with hs | hs
        · exact h.accounts s (Rows.mem_of_mem_deleteWhere hs)
        · rw [List.mem_singleton.1 hs]
          exact ⟨r, hr, hid⟩
  | revokeSession token =>
    cases token with
    | text token =>
      exact ⟨h.names, h.ids, h.tokens.deleteWhere,
        fun s hs => h.accounts s (Rows.mem_of_mem_deleteWhere hs)⟩
    | none => exact h
    | other d => exact h
  | deleteUserId userId =>
    simp only [Auth.step, deleteUserId_eq, Option.map_some, Option.getD_some]
    refine ⟨h.names.deleteWhere, h.ids.deleteWhere, h.tokens.deleteWhere, fun s hs => ?_⟩
    obtain ⟨hmem, hne⟩ := Rows.mem_deleteWhere.1 hs
    obtain ⟨r, hr, hid⟩ := h.accounts s hmem
    exact ⟨r, Rows.mem_deleteWhere.2 ⟨hr, fun heq => hne (hid ▸ heq)⟩, hid⟩

lemma Sound.run (h : Sound db) (calls : List Call) : Sound (Runs.run (Auth.step cfg) db calls) :=
  Runs.run_preserves (I := Sound) (fun _ call hdb => hdb.step call) h calls

/-! ### Logins -/

/-- The call registers the name with the password under the id. -/
def Registers (cfg : Crypto) (name password uid : Text) (db : Db) (call : Call) : Prop :=
  ∃ displayName salt now result,
    call = .register (.text name) (.text password) displayName uid salt now ∧
    register cfg db (.text name) (.text password) displayName uid salt now = .ok result

/-- The call erases the account. -/
def Erases (uid : Text) (_ : Db) (call : Call) : Prop := call = .deleteUserId uid

/-- The account is in the database. -/
def HasAccount (cfg : Crypto) (name password uid : Text) (db : Db) : Prop :=
  ∃ r ∈ db.users, r.username = name ∧ r.userId = uid ∧ r.usernameKey = cfg.lower name ∧
    ∃ salt, r.passwordHash = cfg.hash password salt

/-- What one call does to an account. -/
lemma hasAccount_step (name password uid : Text) (call : Call) :
    HasAccount cfg name password uid (step cfg db call) ↔
      Registers cfg name password uid db call ∨
        HasAccount cfg name password uid db ∧ ¬ Erases uid db call := by
  cases call with
  | register username pw displayName userId salt now =>
    have hnot : ¬ Erases uid db (.register username pw displayName userId salt now) := by
      rintro ⟨⟩
    simp only [Auth.step]
    split
    · rename_i view db' hok
      obtain ⟨name', pw', display, rfl, rfl, -, rfl, -⟩ := register_eq_ok hok
      constructor
      · rintro ⟨r, hr, rfl, rfl, hkey, salt', hhash⟩
        rcases List.mem_append.1 hr with hr | hr
        · exact Or.inr ⟨⟨r, hr, rfl, rfl, hkey, salt', hhash⟩, hnot⟩
        · rw [List.mem_singleton.1 hr] at hhash ⊢
          have hpw : pw' = password := by
            rw [← cfg.check_hash password salt', ← hhash, cfg.check_hash]
          subst hpw
          exact Or.inl ⟨displayName, salt, now, _, rfl, hok⟩
      · rintro (⟨d, salt', now', result, hcall, -⟩ | ⟨⟨r, hr, h⟩, -⟩)
        · cases hcall
          exact ⟨_, List.mem_append_right _ (List.mem_singleton_self _), rfl, rfl, rfl, salt, rfl⟩
        · exact ⟨r, List.mem_append_left _ hr, h⟩
    · rename_i e herr
      constructor
      · exact fun h => Or.inr ⟨h, hnot⟩
      · rintro (⟨d, salt', now', result, hcall, hok⟩ | ⟨h, -⟩)
        · cases hcall
          rw [hok] at herr
          cases herr
        · exact h
  | setDisplayName username displayName =>
    have hmakes : ¬ Registers cfg name password uid db (.setDisplayName username displayName) := by
      rintro ⟨_, _, _, _, hcall, -⟩
      cases hcall
    have hends : ¬ Erases uid db (.setDisplayName username displayName) := by
      rintro ⟨⟩
    simp only [hmakes, hends, not_false_eq_true, and_true, false_or, Auth.step]
    rcases setDisplayName_cases cfg db username displayName with
      heq | ⟨key, display, heq⟩ <;> rw [heq]
    constructor
    · rintro ⟨r, hr, h⟩
      obtain ⟨r₀, hr₀, rfl⟩ := Rows.mem_updateWhere.1 hr
      refine ⟨r₀, hr₀, ?_⟩
      split at h <;> exact h
    · rintro ⟨r, hr, h⟩
      refine ⟨_, Rows.mem_updateWhere.2 ⟨r, hr, rfl⟩, ?_⟩
      split <;> exact h
  | createSession userId ttl token now now' =>
    have hmakes : ¬ Registers cfg name password uid db
        (.createSession userId ttl token now now') := by
      rintro ⟨_, _, _, _, hcall, -⟩
      cases hcall
    have hends : ¬ Erases uid db (.createSession userId ttl token now now') := by
      rintro ⟨⟩
    simp only [hmakes, hends, not_false_eq_true, and_true, false_or, Auth.step]
    cases hcreate : createSession cfg db userId ttl token now now' with
    | none => exact Iff.rfl
    | some db' =>
      obtain ⟨-, -, rfl⟩ := createSession_eq_some hcreate
      exact Iff.rfl
  | revokeSession token =>
    have hmakes : ¬ Registers cfg name password uid db (.revokeSession token) := by
      rintro ⟨_, _, _, _, hcall, -⟩
      cases hcall
    have hends : ¬ Erases uid db (.revokeSession token) := by
      rintro ⟨⟩
    simp only [hmakes, hends, not_false_eq_true, and_true, false_or]
    cases token <;> exact Iff.rfl
  | deleteUserId userId =>
    have hmakes : ¬ Registers cfg name password uid db (.deleteUserId userId) := by
      rintro ⟨_, _, _, _, hcall, -⟩
      cases hcall
    simp only [hmakes, false_or, Auth.step, deleteUserId_eq, Option.map_some, Option.getD_some]
    constructor
    · rintro ⟨r, hr, hname, rfl, h⟩
      obtain ⟨hmem, hne⟩ := Rows.mem_deleteWhere.1 hr
      refine ⟨⟨r, hmem, hname, rfl, h⟩, ?_⟩
      rintro ⟨⟩
      exact hne rfl
    · rintro ⟨⟨r, hr, hname, rfl, h⟩, hends⟩
      refine ⟨r, Rows.mem_deleteWhere.2 ⟨hr, ?_⟩, hname, rfl, h⟩
      rintro rfl
      exact hends rfl

lemma hasAccount_run (cfg : Crypto) (name password uid : Text) (calls : List Call) :
    HasAccount cfg name password uid (Runs.run (step cfg) Db.empty calls) ↔
      Runs.Since (step cfg) (Registers cfg name password uid) (Erases uid) Db.empty calls := by
  refine Runs.run_iff_since (I := fun _ => True) (fun _ _ _ => trivial)
    (fun db call _ => hasAccount_step name password uid call) trivial ?_ calls
  rintro ⟨r, hr, -⟩
  cases hr

/-- Every account in the database came from a registration. -/
def Registered (cfg : Crypto) (db : Db) : Prop :=
  ∀ r ∈ db.users, ∃ password, HasAccount cfg r.username password r.userId db ∧
    r.usernameKey = cfg.lower r.username ∧ ∃ salt, r.passwordHash = cfg.hash password salt

lemma registered_of_keys {db' : Db} (h : ∀ r ∈ db'.users, r.usernameKey = cfg.lower r.username ∧
    ∃ password salt, r.passwordHash = cfg.hash password salt) : Registered cfg db' := by
  intro r hr
  obtain ⟨hkey, password, salt, hhash⟩ := h r hr
  exact ⟨password, ⟨r, hr, rfl, rfl, hkey, salt, hhash⟩, hkey, salt, hhash⟩

lemma Registered.step (h : Registered cfg db) (call : Call) :
    Registered cfg (step cfg db call) := by
  have hold : ∀ r ∈ db.users, r.usernameKey = cfg.lower r.username ∧
      ∃ password salt, r.passwordHash = cfg.hash password salt := by
    intro r hr
    obtain ⟨password, -, hkey, salt, hhash⟩ := h r hr
    exact ⟨hkey, password, salt, hhash⟩
  apply registered_of_keys
  cases call with
  | register username password displayName userId salt now =>
    simp only [Auth.step]
    split
    · rename_i view db' hok
      obtain ⟨name, pw, display, -, -, -, rfl, -⟩ := register_eq_ok hok
      intro r hr
      rcases List.mem_append.1 hr with hr | hr
      · exact hold r hr
      · rw [List.mem_singleton.1 hr]
        exact ⟨rfl, pw, salt, rfl⟩
    · exact hold
  | setDisplayName username displayName =>
    simp only [Auth.step]
    rcases setDisplayName_cases cfg db username displayName with
      heq | ⟨key, display, heq⟩ <;> rw [heq]
    · exact hold
    · intro r hr
      obtain ⟨r₀, hr₀, rfl⟩ := Rows.mem_updateWhere.1 hr
      split <;> exact hold r₀ hr₀
  | createSession userId ttl token now now' =>
    simp only [Auth.step]
    cases hcreate : createSession cfg db userId ttl token now now' with
    | none => exact hold
    | some db' =>
      obtain ⟨-, -, rfl⟩ := createSession_eq_some hcreate
      exact hold
  | revokeSession token => cases token <;> exact hold
  | deleteUserId userId =>
    simp only [Auth.step, deleteUserId_eq, Option.map_some, Option.getD_some]
    exact fun r hr => hold r (Rows.mem_of_mem_deleteWhere hr)

lemma Registered.run (h : Registered cfg db) (calls : List Call) :
    Registered cfg (Runs.run (Auth.step cfg) db calls) :=
  Runs.run_preserves (I := Registered cfg) (fun _ call hdb => hdb.step call) h calls

lemma registered_empty (cfg : Crypto) : Registered cfg Db.empty := by
  intro r hr
  cases hr

lemma verify_eq_some (hsound : Sound db) (hreg : Registered cfg db) {u p name uid : Text} :
    (∃ display, verify cfg db (.text u) (.text p) = some ⟨name, uid, display⟩) ↔
      cfg.lower name = cfg.lower u ∧ HasAccount cfg name p uid db := by
  constructor
  · rintro ⟨display, h⟩
    simp only [verify, userNamed] at h
    split at h
    · rename_i r hr
      split_ifs at h with hcheck
      cases h
      obtain ⟨password, haccount, hkey, salt, hhash⟩ := hreg r (Rows.selectOne_mem hr)
      rw [hhash, cfg.check_hash] at hcheck
      subst hcheck
      have hname : r.usernameKey = cfg.lower u :=
        Rows.selectOne_holds (p := fun r : User => r.usernameKey = cfg.lower u) hr
      exact ⟨hkey.symm.trans hname, haccount⟩
    · cases h
  · rintro ⟨hlower, r, hr, rfl, rfl, hkey, salt, hhash⟩
    have hfind : userNamed cfg db u = some r := by
      refine Rows.selectOne_eq_some hr (hkey.trans hlower) fun r' hr' hkey' => ?_
      exact hsound.names.eq hr' hr (hkey'.trans (hkey.trans hlower).symm)
    refine ⟨if r.displayName = [] then r.username else r.displayName, ?_⟩
    simp only [verify, hfind]
    rw [if_pos (by rw [hhash, cfg.check_hash])]
    rfl

/-- **Who can log in.** After any calls to a new database, a name and a password are accepted as
an account if and only if a call registered that account with that very password, under the name
up to case, and it has not been erased since. -/
theorem login_iff (cfg : Crypto) (calls : List Call) (u p name uid : Text) :
    (∃ display, verify cfg (Runs.run (step cfg) Db.empty calls) (.text u) (.text p) =
      some ⟨name, uid, display⟩) ↔
    cfg.lower name = cfg.lower u ∧
      Runs.Since (step cfg) (Registers cfg name p uid) (Erases uid) Db.empty calls := by
  rw [verify_eq_some (sound_empty.run calls) ((registered_empty cfg).run calls), hasAccount_run]

/-- Functions as simple as they may be. -/
def plainCrypto : Crypto where
  lower := fun t => t.map fun c => if 65 ≤ c ∧ c ≤ 90 then c + 32 else c
  hash password _ := password
  check hash password := decide (hash = password)
  check_hash := by simp [eq_comm]
  digest := id

example : verify plainCrypto (Runs.run (step plainCrypto) Db.empty
    [.register (.text "Carol") (.text "hunter2") .none "id1" "salt" 0,
      .register (.text "carol") (.text "other-one") .none "id2" "salt" 1])
    (.text "CAROL") (.text "hunter2") = some ⟨"Carol", "id1", "Carol"⟩ := by
  decide

/-! ### Sessions -/

/-- The call opens a session for the account, under the digest and until `expires`. -/
def Opens (cfg : Crypto) (digest uid : Text) (expires : ℤ) (db : Db) (call : Call) : Prop :=
  ∃ ttl token now now' db', call = .createSession uid ttl token now now' ∧
    cfg.digest token = digest ∧ now' + ttl = expires ∧
    createSession cfg db uid ttl token now now' = some db'

/-- The call revokes the digest, erases the account, or opens another session when this one has
expired. -/
def Closes (cfg : Crypto) (digest uid : Text) (expires : ℤ) (db : Db) (call : Call) : Prop :=
  (∃ token, call = .revokeSession (.text token) ∧ cfg.digest token = digest) ∨
    call = .deleteUserId uid ∨
    ∃ userId ttl token now now' db', call = .createSession userId ttl token now now' ∧
      createSession cfg db userId ttl token now now' = some db' ∧ expires ≤ now

/-- The session is in the database. -/
def HasSession (digest uid : Text) (expires : ℤ) (db : Db) : Prop :=
  ⟨digest, uid, expires⟩ ∈ db.sessions

/-- What one call does to a session. -/
lemma hasSession_step (digest uid : Text) (expires : ℤ) (call : Call) :
    HasSession digest uid expires (step cfg db call) ↔
      Opens cfg digest uid expires db call ∨
        HasSession digest uid expires db ∧ ¬ Closes cfg digest uid expires db call := by
  cases call with
  | register username pw displayName userId salt now =>
    have hopens : ¬ Opens cfg digest uid expires db
        (.register username pw displayName userId salt now) := by
      rintro ⟨_, _, _, _, _, hcall, -⟩
      cases hcall
    have hcloses : ¬ Closes cfg digest uid expires db
        (.register username pw displayName userId salt now) := by
      rintro (⟨_, hcall, -⟩ | hcall | ⟨_, _, _, _, _, _, hcall, -⟩) <;> cases hcall
    simp only [hopens, hcloses, not_false_eq_true, and_true, false_or, Auth.step]
    split
    · rename_i view db' hok
      obtain ⟨name', pw', display, -, -, -, rfl, -⟩ := register_eq_ok hok
      exact Iff.rfl
    · exact Iff.rfl
  | setDisplayName username displayName =>
    have hopens : ¬ Opens cfg digest uid expires db (.setDisplayName username displayName) := by
      rintro ⟨_, _, _, _, _, hcall, -⟩
      cases hcall
    have hcloses : ¬ Closes cfg digest uid expires db (.setDisplayName username displayName) := by
      rintro (⟨_, hcall, -⟩ | hcall | ⟨_, _, _, _, _, _, hcall, -⟩) <;> cases hcall
    simp only [hopens, hcloses, not_false_eq_true, and_true, false_or, Auth.step]
    rcases setDisplayName_cases cfg db username displayName with
      heq | ⟨key, display, heq⟩ <;> rw [heq]
    exact Iff.rfl
  | createSession userId ttl token now now' =>
    simp only [Auth.step]
    cases hcreate : createSession cfg db userId ttl token now now' with
    | none =>
      have hopens : ¬ Opens cfg digest uid expires db
          (.createSession userId ttl token now now') := by
        rintro ⟨_, _, _, _, db', hcall, -, -, hsome⟩
        cases hcall
        rw [hcreate] at hsome
        cases hsome
      have hcloses : ¬ Closes cfg digest uid expires db
          (.createSession userId ttl token now now') := by
        rintro (⟨_, hcall, -⟩ | hcall | ⟨_, _, _, _, _, db', hcall, hsome, -⟩) <;> cases hcall
        rw [hcreate] at hsome
        cases hsome
      simp only [hopens, hcloses, not_false_eq_true, and_true, false_or, Option.getD_none]
    | some db' =>
      obtain ⟨-, -, rfl⟩ := createSession_eq_some hcreate
      simp only [Option.getD_some, HasSession, List.mem_append, List.mem_singleton,
        Rows.mem_deleteWhere]
      constructor
      · rintro (⟨hmem, hlive⟩ | heq)
        · refine Or.inr ⟨hmem, ?_⟩
          rintro (⟨_, hcall, -⟩ | hcall | ⟨_, _, _, _, _, _, hcall, -, hle⟩) <;> cases hcall
          exact hlive hle
        · cases heq
          exact Or.inl ⟨ttl, token, now, now', _, rfl, rfl, rfl, hcreate⟩
      · rintro (⟨_, _, _, _, _, hcall, rfl, rfl, -⟩ | ⟨hmem, hcloses⟩)
        · cases hcall
          exact Or.inr rfl
        · refine Or.inl ⟨hmem, fun hle => hcloses (Or.inr (Or.inr ?_))⟩
          exact ⟨userId, ttl, token, now, now', _, rfl, hcreate, hle⟩
  | revokeSession token =>
    have hopens : ¬ Opens cfg digest uid expires db (.revokeSession token) := by
      rintro ⟨_, _, _, _, _, hcall, -⟩
      cases hcall
    simp only [hopens, false_or]
    cases token with
    | text token =>
      simp only [Auth.step, revokeSession, HasSession, Rows.mem_deleteWhere]
      refine and_congr_right fun _ => not_congr ⟨fun heq => Or.inl ⟨token, rfl, heq.symm⟩, ?_⟩
      rintro (⟨_, hcall, heq⟩ | hcall | ⟨_, _, _, _, _, _, hcall, -⟩) <;> cases hcall
      exact heq.symm
    | none =>
      refine ⟨fun h => ⟨h, ?_⟩, fun h => h.1⟩
      rintro (⟨_, hcall, -⟩ | hcall | ⟨_, _, _, _, _, _, hcall, -⟩) <;> cases hcall
    | other d =>
      refine ⟨fun h => ⟨h, ?_⟩, fun h => h.1⟩
      rintro (⟨_, hcall, -⟩ | hcall | ⟨_, _, _, _, _, _, hcall, -⟩) <;> cases hcall
  | deleteUserId userId =>
    have hopens : ¬ Opens cfg digest uid expires db (.deleteUserId userId) := by
      rintro ⟨_, _, _, _, _, hcall, -⟩
      cases hcall
    simp only [hopens, false_or, Auth.step, deleteUserId_eq, Option.map_some, Option.getD_some,
      HasSession, Rows.mem_deleteWhere]
    refine and_congr_right fun _ => not_congr ⟨fun heq => Or.inr (Or.inl (heq ▸ rfl)), ?_⟩
    rintro (⟨_, hcall, -⟩ | hcall | ⟨_, _, _, _, _, _, hcall, -⟩) <;> cases hcall
    rfl

lemma hasSession_run (cfg : Crypto) (digest uid : Text) (expires : ℤ) (calls : List Call) :
    HasSession digest uid expires (Runs.run (step cfg) Db.empty calls) ↔
      Runs.Since (step cfg) (Opens cfg digest uid expires) (Closes cfg digest uid expires)
        Db.empty calls := by
  refine Runs.run_iff_since (I := fun _ => True) (fun _ _ _ => trivial)
    (fun db call _ => hasSession_step digest uid expires call) trivial ?_ calls
  intro h
  cases h

lemma getSession_eq_some (hsound : Sound db) (hreg : Registered cfg db) {token name uid : Text}
    {now : ℤ} : (∃ display, getSession cfg db (.text token) now = some ⟨name, uid, display⟩) ↔
      (20 ≤ token.length ∧ token.length ≤ 128) ∧
      (∃ expires, now < expires ∧ HasSession (cfg.digest token) uid expires db) ∧
      ∃ password, HasAccount cfg name password uid db := by
  simp only [getSession]
  constructor
  · rintro ⟨display, h⟩
    split_ifs at h with hlen
    obtain ⟨r, hr, hview⟩ := Option.map_eq_some_iff.1 h
    obtain ⟨s, hs, hfind⟩ := List.exists_of_findSome?_eq_some hr
    obtain ⟨hmem, hmeets⟩ := List.mem_filter.1 hs
    simp only [decide_eq_true_eq] at hmeets
    have hid : r.userId = s.userId :=
      Rows.selectOne_holds (p := fun r : User => r.userId = s.userId) hfind
    cases hview
    refine ⟨hlen, ⟨s.expiresAt, hmeets.2, ?_⟩, ?_⟩
    · rw [HasSession, hid, ← hmeets.1]
      exact hmem
    · obtain ⟨password, haccount, -⟩ := hreg r (Rows.selectOne_mem hfind)
      exact ⟨password, haccount⟩
  · rintro ⟨hlen, ⟨expires, hlive, hmem⟩, password, r, hr, rfl, rfl, -⟩
    rw [if_pos hlen]
    refine ⟨if r.displayName = [] then r.username else r.displayName, ?_⟩
    have hfilter : (⟨cfg.digest token, r.userId, expires⟩ : Session) ∈ db.sessions.filter
        fun s => s.tokenHash = cfg.digest token ∧ now < s.expiresAt := by
      rw [List.mem_filter]
      exact ⟨hmem, by simpa using hlive⟩
    have huser : selectOne (·.userId = r.userId) db.users = some r :=
      Rows.selectOne_eq_some hr rfl fun r' hr' hid => hsound.ids.eq hr' hr hid
    have hfind : (db.sessions.filter fun s => s.tokenHash = cfg.digest token ∧
        now < s.expiresAt).findSome? (fun s => selectOne (·.userId = s.userId) db.users) =
          some r := by
      cases hsome : (db.sessions.filter fun s => s.tokenHash = cfg.digest token ∧
          now < s.expiresAt).findSome? (fun s => selectOne (·.userId = s.userId) db.users) with
      | none =>
        have := List.findSome?_eq_none_iff.1 hsome _ hfilter
        rw [huser] at this
        cases this
      | some r' =>
        obtain ⟨s', hs', hfind⟩ := List.exists_of_findSome?_eq_some hsome
        obtain ⟨hmem', hmeets⟩ := List.mem_filter.1 hs'
        simp only [decide_eq_true_eq] at hmeets
        obtain rfl := hsound.tokens.eq hmem' hmem hmeets.1
        rw [← hfind]
        exact huser
    rw [hfind]
    rfl

/-- **Which tokens are good.** After any calls to a new database, a token is good for an account
if and only if a session with its digest was opened for the account that has not expired, been
revoked or been swept away since, and the account was registered and has not been erased since. -/
theorem token_iff (cfg : Crypto) (calls : List Call) (token name uid : Text) (now : ℤ) :
    (∃ display, getSession cfg (Runs.run (step cfg) Db.empty calls) (.text token) now =
      some ⟨name, uid, display⟩) ↔
    (20 ≤ token.length ∧ token.length ≤ 128) ∧
      (∃ expires, now < expires ∧ Runs.Since (step cfg) (Opens cfg (cfg.digest token) uid expires)
        (Closes cfg (cfg.digest token) uid expires) Db.empty calls) ∧
      ∃ password, Runs.Since (step cfg) (Registers cfg name password uid) (Erases uid) Db.empty
        calls := by
  rw [getSession_eq_some (sound_empty.run calls) ((registered_empty cfg).run calls)]
  simp only [hasSession_run, hasAccount_run]

end RentCompass.Web.Auth
