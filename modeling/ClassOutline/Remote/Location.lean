import ClassOutline.Remote.Url

/-!
# Remote repositories

A repository is named by its web address or by the short form `git@host:owner/name`. Either way it
has a host, an owner and a name, and is cloned from the address that these give.
-/

namespace ClassOutline

/-- A remote repository. -/
structure RemoteRepository where
  host : Bytes
  owner : Bytes
  name : Bytes
  /-- The text that named it. -/
  url : Bytes
deriving DecidableEq, Repr

/-- Why a text names no repository. -/
inductive RemoteError where
  | shortForm (text : Bytes)
  | path (text : Bytes)
  | url (text : Bytes) (fault : UrlFault)
  | scheme (word : Bytes)
  | noHost (text : Bytes)
deriving DecidableEq, Repr

/-- The error in words. -/
def RemoteError.message : RemoteError → Bytes
  | .shortForm text => Bytes.ofString "invalid SSH URL format: " ++ text
  | .path text => Bytes.ofString "invalid repo path: " ++ text
  | .url text fault =>
    Bytes.ofString "failed to parse URL: parse " ++ text.quoted ++ Bytes.ofString ": " ++ fault.text
  | .scheme word => Bytes.ofString "unsupported URL scheme " ++ word.quoted
  | .noHost text => Bytes.ofString "missing host in URL: " ++ text

namespace RemoteRepository

/-- The ending that a name may have. -/
def gitEnding : Bytes := Bytes.ofString ".git"

/-- The beginning of the short form. -/
def shortLead : Bytes := Bytes.ofString "git@"

/-- The address from which the repository is cloned. -/
def cloneUrl (r : RemoteRepository) : Bytes :=
  Bytes.ofString "https://" ++ r.host ++ [0x2F] ++ r.owner ++ [0x2F] ++ r.name ++ gitEnding

/-- The repository of a short form, without its beginning. -/
def ofShortForm (text rest : Bytes) : Except RemoteError RemoteRepository :=
  match Bytes.split 0x3A rest with
  | [host, path] =>
    if host.isEmpty then .error (.shortForm text)
    else
      match Bytes.split 0x2F (Bytes.dropEnding gitEnding path) with
      | [owner, name] =>
        if owner.isEmpty || name.isEmpty then .error (.path path)
        else .ok ⟨host, owner, name, text⟩
      | _ => .error (.path path)
  | _ => .error (.shortForm text)

/-- A text without the slashes at its ends. -/
def trimSlashes (s : Bytes) : Bytes := Bytes.dropWhileEnd (· == 0x2F) (s.dropWhile (· == 0x2F))

/-- The repository of a web address. -/
def ofUrl (text : Bytes) : Except RemoteError RemoteRepository :=
  match Url.parse text with
  | .error (shown, fault) => .error (.url shown fault)
  | .ok url =>
    if url.scheme != Bytes.ofString "https" && url.scheme != Bytes.ofString "http" then
      .error (.scheme url.scheme)
    else if url.host.isEmpty then .error (.noHost text)
    else
      match Bytes.split 0x2F (trimSlashes url.path) with
      | owner :: name :: _ =>
        if owner.isEmpty || name.isEmpty then .error (.path url.path)
        else .ok ⟨url.host, owner, Bytes.dropEnding gitEnding name, text⟩
      | _ => .error (.path url.path)

/-- The repository that a text names. -/
def parse (text : Bytes) : Except RemoteError RemoteRepository :=
  if shortLead.isPrefixOf text then ofShortForm text (text.drop shortLead.length) else ofUrl text

end RemoteRepository

end ClassOutline
