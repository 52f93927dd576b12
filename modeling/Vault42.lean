import Vault42.Session.Lifetime
import Vault42.Session.SenderConstraint
import Vault42.Lockout.Unlock
import Vault42.Lockout.Disclosure
import Vault42.Session.PasswordChange
import Vault42.Reset.Links
import Vault42.Session.OwedFactor
import Vault42.Keystore.Lifecycle
import Vault42.Keystore.Refresh
import Vault42.Admin.SecondFactor
import Vault42.Identity.Consent
import Vault42.Audit.Conservation
import Vault42.Audit.Isolation
import Vault42.Admin.Containment
import Vault42.OAuth.Links
import Vault42.Bridge.Address
import Vault42.Middleware.Budget
import Vault42.Middleware.ClientIP
import Vault42.Service.Mint
import Vault42.Admin.Revocation
import Vault42.Middleware.DPoP
import Vault42.Session.PasswordHistory
import Vault42.Admin.SuperAdmins
import Vault42.Client.SignOut
import Vault42.JWT.Names
import Vault42.Cache.Capped
import Vault42.Bridge.Tracker
import Vault42.Records.Bindings
import Vault42.Crypto.Recovery
