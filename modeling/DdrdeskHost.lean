import DdrdeskHost.Admission
import DdrdeskHost.Arrival
import DdrdeskHost.Auth
import DdrdeskHost.Capture
import DdrdeskHost.Certificate
import DdrdeskHost.ConnectionId
import DdrdeskHost.Delivery
import DdrdeskHost.Devices
import DdrdeskHost.DisplayCrash
import DdrdeskHost.EncodeSize
import DdrdeskHost.Fifo
import DdrdeskHost.FirstFrame
import DdrdeskHost.FlvRoundTrip
import DdrdeskHost.HeldKeys
import DdrdeskHost.Identity
import DdrdeskHost.Ignored
import DdrdeskHost.KeyNames
import DdrdeskHost.Keyframes
import DdrdeskHost.Limiter
import DdrdeskHost.Listing
import DdrdeskHost.Lockout
import DdrdeskHost.Mouse
import DdrdeskHost.OutputChoices
import DdrdeskHost.Pictures
import DdrdeskHost.PointerScale
import DdrdeskHost.Readers
import DdrdeskHost.Recorder
import DdrdeskHost.Recording
import DdrdeskHost.Records
import DdrdeskHost.Relay
import DdrdeskHost.RenderedListing
import DdrdeskHost.Secrecy
import DdrdeskHost.SessionEnds
import DdrdeskHost.SessionOutput
import DdrdeskHost.Sharing
import DdrdeskHost.Shutdown
import DdrdeskHost.StatusFile
import DdrdeskHost.Stun
import DdrdeskHost.Typing
import DdrdeskHost.VideoFits
